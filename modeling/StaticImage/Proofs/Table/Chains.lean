import Mathlib.Data.List.Nodup
import Mathlib.Data.List.Perm.Subperm
import StaticImage.Proofs.Table.Slots

/-!
The layout of a table. All keys of one bucket lie on one chain that starts at their main position;
the walk along a chain finds a key exactly when the table holds it. A main position may be taken
by a key of another bucket only while its own bucket is empty, and then the walk runs along the
end of that other chain.
-/

namespace StaticImage.Table

/-- With more slots than these a link could not be told from the end of a chain. -/
def maxSlots : Nat := 0xFFFFFF

def linkTo : List Nat → UInt32
  | [] => chainEnd
  | slot :: _ => UInt32.ofNat slot

/-- The slots are taken, each links to the next one, and the last one ends the chain. -/
def Linked (t : Table) : List Nat → Prop
  | [] => True
  | slot :: rest => (∃ e, t.entryAt? slot = some e ∧ e.next = linkTo rest) ∧ t.Linked rest

def homeAt? (t : Table) (slot : Nat) : Option Nat :=
  (t.entryAt? slot).map fun e => t.mainPosition e.key.data

/-- The slots of one bucket in the order of their links. -/
structure Chain (t : Table) (main : Nat) (slots : List Nat) : Prop where
  starts : ∀ slot ∈ slots.head?, slot = main
  linked : t.Linked slots
  nodup : slots.Nodup
  covers : ∀ slot, slot ∈ slots ↔ t.homeAt? slot = some main

/-- What holds of every table that the operations build. -/
structure Valid (t : Table) : Prop where
  small : t.size ≤ maxSlots
  counted : t.count = t.bindings.length
  bounded : t.lastFree ≤ t.size
  filled : ∀ slot, t.lastFree ≤ slot → slot < t.size → t.entryAt? slot ≠ none
  distinct : t.keys.Nodup
  named : Datum.nil ∉ t.keys
  chained : ∀ main, ∃ slots, t.Chain main slots

theorem linkTo_toNat (slot : Nat) (rest : List Nat) (small : slot < maxSlots) :
    (linkTo (slot :: rest)).toNat = slot := by
  have bound : maxSlots < 2 ^ 32 := by decide
  simp only [linkTo, UInt32.toNat_ofNat']
  exact Nat.mod_eq_of_lt (by omega)

theorem linkTo_ne_chainEnd (slot : Nat) (rest : List Nat) (small : slot < maxSlots) :
    linkTo (slot :: rest) ≠ chainEnd := by
  intro equal
  have value := congrArg UInt32.toNat equal
  rw [linkTo_toNat slot rest small] at value
  have last : chainEnd.toNat = maxSlots := by decide
  omega

theorem Linked.drop {t : Table} (front rest : List Nat) (linked : t.Linked (front ++ rest)) :
    t.Linked rest := by
  induction front with
  | nil => exact linked
  | cons slot front ih => exact ih linked.2

theorem Linked.frame {t u : Table} (slots : List Nat) (linked : t.Linked slots)
    (same : ∀ slot ∈ slots, u.entryAt? slot = t.entryAt? slot) : u.Linked slots := by
  induction slots with
  | nil => trivial
  | cons slot rest ih =>
      constructor
      · rw [same slot List.mem_cons_self]
        exact linked.1
      · exact ih linked.2 fun other member => same other (List.mem_cons_of_mem slot member)

theorem Linked.relabel {t u : Table} (slots : List Nat) (linked : t.Linked slots)
    (links : ∀ slot e, t.entryAt? slot = some e →
      ∃ f, u.entryAt? slot = some f ∧ f.next = e.next) : u.Linked slots := by
  induction slots with
  | nil => trivial
  | cons slot rest ih =>
      obtain ⟨⟨e, present, link⟩, tail⟩ := linked
      obtain ⟨f, found, same⟩ := links slot e present
      exact ⟨⟨f, found, same.trans link⟩, ih tail⟩

/-- A chain may go on differently behind one of its slots if only that slot is written. -/
theorem Linked.splice {t u : Table} (front old new : List Nat) (slot : Nat)
    (linked : t.Linked (front ++ slot :: old))
    (same : ∀ other ∈ front, u.entryAt? other = t.entryAt? other)
    (next : u.Linked (slot :: new)) : u.Linked (front ++ slot :: new) := by
  induction front with
  | nil => exact next
  | cons first front ih =>
      obtain ⟨⟨e, present, link⟩, tail⟩ := linked
      constructor
      · refine ⟨e, ?_, ?_⟩
        · rw [same first List.mem_cons_self]
          exact present
        · rw [link]
          cases front <;> rfl
      · exact ih tail fun other member => same other (List.mem_cons_of_mem first member)

theorem Linked.entry {t : Table} (front rest : List Nat) (slot : Nat)
    (linked : t.Linked (front ++ slot :: rest)) :
    ∃ e, t.entryAt? slot = some e ∧ e.next = linkTo rest :=
  (Linked.drop front (slot :: rest) linked).1

namespace Chain

variable {t : Table} {main : Nat} {slots : List Nat}

theorem lt_size (chain : t.Chain main slots) (slot : Nat) (member : slot ∈ slots) :
    slot < t.size := by
  have home := (chain.covers slot).mp member
  obtain ⟨e, present, _⟩ := Option.map_eq_some_iff.mp home
  exact entryAt?_lt t slot e present

theorem length_le_size (chain : t.Chain main slots) : slots.length ≤ t.size := by
  have inside : slots ⊆ List.range t.size := fun slot member =>
    List.mem_range.mpr (chain.lt_size slot member)
  simpa using (chain.nodup.subperm inside).length_le

theorem successive_ne {front rest : List Nat} {before slot : Nat}
    (chain : t.Chain main (front ++ before :: slot :: rest)) : before ≠ slot := by
  have back := List.nodup_cons.mp (List.nodup_append'.mp chain.nodup).2.1
  exact fun clash => back.1 (clash ▸ List.mem_cons_self)

/-- A chain is the same in a table that agrees on its slots and has no further key of its bucket. -/
theorem frame {u : Table} (chain : t.Chain main slots)
    (same : ∀ slot ∈ slots, u.entryAt? slot = t.entryAt? slot)
    (homes : ∀ slot, u.homeAt? slot = some main ↔ t.homeAt? slot = some main) :
    u.Chain main slots where
  starts := chain.starts
  linked := chain.linked.frame slots same
  nodup := chain.nodup
  covers slot := by rw [chain.covers, homes]

end Chain

theorem mainPosition_congr (t u : Table) (key : Datum) (same : u.size = t.size) :
    u.mainPosition key = t.mainPosition key := by
  simp only [mainPosition, same]

theorem homeAt?_congr (t u : Table) (slot : Nat) (size : u.size = t.size)
    (same : u.entryAt? slot = t.entryAt? slot) : u.homeAt? slot = t.homeAt? slot := by
  simp only [homeAt?, same, mainPosition_congr t u _ size]

/-- A chain that is put together anew: only the slots that were written can join or leave it. -/
theorem Chain.rebuild {t u : Table} {main : Nat} {old : List Nat} (chain : t.Chain main old)
    (new touched : List Nat) (size : u.size = t.size)
    (same : ∀ slot, slot ∉ touched → u.entryAt? slot = t.entryAt? slot)
    (starts : ∀ slot ∈ new.head?, slot = main) (linked : u.Linked new) (nodup : new.Nodup)
    (kept : ∀ slot, slot ∉ touched → (slot ∈ new ↔ slot ∈ old))
    (homes : ∀ slot ∈ touched, slot ∈ new ↔ u.homeAt? slot = some main) : u.Chain main new where
  starts := starts
  linked := linked
  nodup := nodup
  covers slot := by
    by_cases written : slot ∈ touched
    · exact homes slot written
    · rw [kept slot written, chain.covers, homeAt?_congr t u slot size (same slot written)]

theorem Chain.exchange {t u : Table} {main : Nat} {front rest : List Nat} {before old : Nat}
    (chain : t.Chain main (front ++ before :: old :: rest)) (new : Nat) (size : u.size = t.size)
    (same : ∀ slot, slot ∉ [old, new, before] → u.entryAt? slot = t.entryAt? slot)
    (outside : t.homeAt? new ≠ some main)
    (relinked : ∃ e, u.entryAt? before = some e ∧ e.next = UInt32.ofNat new)
    (moved : u.entryAt? new = t.entryAt? old)
    (before_home : u.homeAt? before = some main) (left : u.homeAt? old ≠ some main) :
    u.Chain main (front ++ before :: new :: rest) := by
  have parts := chain.nodup
  simp only [List.nodup_append', List.nodup_cons, List.mem_cons, not_or,
    List.disjoint_cons_right] at parts
  obtain ⟨front_nodup, ⟨⟨before_old, before_rest⟩, old_rest, rest_nodup⟩,
    before_front, old_front, disjoint⟩ := parts
  have absent : new ∉ front ++ before :: old :: rest := fun member =>
    outside ((chain.covers new).mp member)
  simp only [List.mem_append, List.mem_cons, not_or] at absent
  obtain ⟨new_front, new_before, new_old, new_rest⟩ := absent
  have new_home : u.homeAt? new = some main := by
    have old_home := (chain.covers old).mp (by simp)
    rw [← old_home]
    simp only [homeAt?, moved, mainPosition_congr t u _ size]
  have front_same (slot : Nat) (member : slot ∈ front) : u.entryAt? slot = t.entryAt? slot := by
    apply same
    simp only [List.mem_cons, List.not_mem_nil, or_false, not_or]
    exact ⟨fun clash => old_front (clash ▸ member), fun clash => new_front (clash ▸ member),
      fun clash => before_front (clash ▸ member)⟩
  have rest_same (slot : Nat) (member : slot ∈ rest) : u.entryAt? slot = t.entryAt? slot := by
    apply same
    simp only [List.mem_cons, List.not_mem_nil, or_false, not_or]
    exact ⟨fun clash => old_rest (clash ▸ member), fun clash => new_rest (clash ▸ member),
      fun clash => before_rest (clash ▸ member)⟩
  obtain ⟨_, ⟨e, present, link⟩, tail⟩ := chain.linked.drop front _
  refine chain.rebuild _ [old, new, before] size same ?_ ?_ ?_ ?_ ?_
  · cases front with
    | nil => exact fun slot head => chain.starts slot head
    | cons first front => exact fun slot head => chain.starts slot head
  · exact chain.linked.splice front _ _ before front_same
      ⟨relinked, ⟨e, moved.trans present, link⟩, tail.frame rest rest_same⟩
  · simp [List.nodup_append', front_nodup, rest_nodup, before_rest, before_front, new_front,
      new_rest, Ne.symm new_before, disjoint]
  · simp +contextual
  · simp [left, new_home, before_home, old_front, old_rest, Ne.symm before_old, Ne.symm new_old]

/-- After some slots are written, only the chains of the buckets that those slots were or are part
of have to be found anew. -/
theorem Valid.rechain {t u : Table} (valid : t.Valid) (size : u.size = t.size)
    (touched mains : List Nat)
    (same : ∀ slot, slot ∉ touched → u.entryAt? slot = t.entryAt? slot)
    (homes : ∀ slot ∈ touched,
      (∀ main ∈ t.homeAt? slot, main ∈ mains) ∧ ∀ main ∈ u.homeAt? slot, main ∈ mains)
    (anew : ∀ main ∈ mains, ∃ slots, u.Chain main slots) (main : Nat) :
    ∃ slots, u.Chain main slots := by
  by_cases affected : main ∈ mains
  · exact anew main affected
  · obtain ⟨slots, chain⟩ := valid.chained main
    have before (slot : Nat) (home : t.homeAt? slot = some main) : slot ∉ touched :=
      fun member => affected ((homes slot member).1 main home)
    have after (slot : Nat) (home : u.homeAt? slot = some main) : slot ∉ touched :=
      fun member => affected ((homes slot member).2 main home)
    refine ⟨slots, chain.frame ?_ ?_⟩
    · intro slot member
      exact same slot (before slot ((chain.covers slot).mp member))
    · intro slot
      constructor
      · intro home
        rwa [homeAt?_congr t u slot size (same slot (after slot home))] at home
      · intro home
        rwa [homeAt?_congr t u slot size (same slot (before slot home))]

theorem follow_step (t : Table) (key : Datum) (steps slot : Nat) (before : Option Nat) (e : Entry)
    (present : t.entryAt? slot = some e) :
    t.follow key (steps + 1) slot before =
      if e.key.data = key then some (slot, before)
      else if e.isLast then none
      else t.follow key steps e.next.toNat (some slot) := by
  simp only [follow, present]

theorem follow_missing (t : Table) (key : Datum) (rest : List Nat) (first steps : Nat)
    (before : Option Nat) (linked : t.Linked (first :: rest))
    (small : ∀ slot ∈ first :: rest, slot < maxSlots)
    (absent : ∀ slot e, t.entryAt? slot = some e → e.key.data ≠ key) :
    t.follow key steps first before = none := by
  induction rest generalizing first steps before with
  | nil =>
      cases steps with
      | zero => rfl
      | succ steps =>
          obtain ⟨⟨e, present, link⟩, _⟩ := linked
          have ended : e.next = chainEnd := link
          have last : e.isLast = true := by simpa [Entry.isLast] using ended
          rw [follow_step t key steps first before e present, if_neg (absent first e present),
            if_pos last]
  | cons second rest ih =>
      cases steps with
      | zero => rfl
      | succ steps =>
          obtain ⟨⟨e, present, link⟩, tail⟩ := linked
          have bound : second < maxSlots := small second (by simp)
          have onward : ¬ e.isLast = true := by
            simpa [Entry.isLast, link] using linkTo_ne_chainEnd second rest bound
          rw [follow_step t key steps first before e present, if_neg (absent first e present),
            if_neg onward, link, linkTo_toNat second rest bound]
          exact ih second steps (some first) tail fun slot member =>
            small slot (List.mem_cons_of_mem first member)

theorem follow_found (t : Table) (key : Datum) (front rest : List Nat) (first slot steps : Nat)
    (before : Option Nat) (e : Entry) (linked : t.Linked (front ++ slot :: rest))
    (start : (front ++ [slot]).head? = some first)
    (small : ∀ other ∈ front ++ slot :: rest, other < maxSlots)
    (present : t.entryAt? slot = some e) (hit : e.key.data = key)
    (absent : ∀ other ∈ front, ∀ f, t.entryAt? other = some f → f.key.data ≠ key)
    (enough : front.length < steps) :
    t.follow key steps first before = some (slot, front.getLast?.or before) := by
  induction front generalizing first steps before with
  | nil =>
      obtain ⟨steps, rfl⟩ : ∃ n, steps = n + 1 := ⟨steps - 1, by simp at enough; omega⟩
      have same : slot = first := by simpa using start
      subst same
      rw [follow_step t key steps slot before e present, if_pos hit]
      rfl
  | cons other front ih =>
      obtain ⟨steps, rfl⟩ : ∃ n, steps = n + 1 := ⟨steps - 1, by simp at enough; omega⟩
      have same : other = first := by simpa using start
      subst same
      rw [List.cons_append] at linked small
      obtain ⟨⟨f, found, link⟩, tail⟩ := linked
      have miss := absent other List.mem_cons_self f found
      obtain ⟨second, more, shape⟩ : ∃ second more, front ++ slot :: rest = second :: more := by
        cases front with
        | nil => exact ⟨slot, rest, rfl⟩
        | cons second front => exact ⟨second, front ++ slot :: rest, rfl⟩
      have bound : second < maxSlots :=
        small second (List.mem_cons_of_mem other (by rw [shape]; exact List.mem_cons_self))
      have onward : ¬ f.isLast = true := by
        rw [shape] at link
        simpa [Entry.isLast, link] using linkTo_ne_chainEnd second more bound
      have head : (front ++ [slot]).head? = some second := by
        cases front <;> simp_all
      rw [follow_step t key steps other before f found, if_neg miss, if_neg onward, link, shape,
        linkTo_toNat second more bound]
      rw [ih second steps (some other) tail head
        (fun slot member => small slot (List.mem_cons_of_mem other member))
        (fun slot member => absent slot (List.mem_cons_of_mem other member))
        (by simpa using enough)]
      cases last : front.getLast? <;> simp [List.getLast?_cons, last]

theorem predecessor_step (t : Table) (target steps slot : Nat) (e : Entry)
    (present : t.entryAt? slot = some e) :
    t.predecessor target (steps + 1) slot =
      if e.next.toNat = target then slot else t.predecessor target steps e.next.toNat := by
  simp only [predecessor, present]

theorem predecessor_found (t : Table) (front rest : List Nat) (first before target steps : Nat)
    (linked : t.Linked (front ++ before :: target :: rest))
    (start : (front ++ [before]).head? = some first)
    (nodup : (front ++ before :: target :: rest).Nodup)
    (small : ∀ slot ∈ front ++ before :: target :: rest, slot < maxSlots)
    (enough : front.length < steps) : t.predecessor target steps first = before := by
  induction front generalizing first steps with
  | nil =>
      obtain ⟨steps, rfl⟩ : ∃ n, steps = n + 1 := ⟨steps - 1, by simp at enough; omega⟩
      have same : before = first := by simpa using start
      subst same
      obtain ⟨⟨e, present, link⟩, _⟩ := linked
      rw [predecessor_step t target steps before e present, link,
        linkTo_toNat target rest (small target (by simp)), if_pos rfl]
  | cons other front ih =>
      obtain ⟨steps, rfl⟩ : ∃ n, steps = n + 1 := ⟨steps - 1, by simp at enough; omega⟩
      have same : other = first := by simpa using start
      subst same
      rw [List.cons_append] at linked nodup small
      obtain ⟨⟨e, present, link⟩, tail⟩ := linked
      have inner : (front ++ before :: target :: rest).Nodup := (List.nodup_cons.mp nodup).2
      obtain ⟨second, more, shape, different⟩ : ∃ second more,
          front ++ before :: target :: rest = second :: more ∧ second ≠ target := by
        cases front with
        | nil =>
            refine ⟨before, target :: rest, rfl, ?_⟩
            intro equal
            simp [equal] at inner
        | cons second front =>
            refine ⟨second, front ++ before :: target :: rest, rfl, ?_⟩
            intro equal
            simp [equal] at inner
      have bound : second < maxSlots :=
        small second (List.mem_cons_of_mem other (by rw [shape]; exact List.mem_cons_self))
      have head : (front ++ [before]).head? = some second := by
        cases front <;> simp_all
      rw [predecessor_step t target steps other e present, link, shape,
        linkTo_toNat second more bound, if_neg different]
      exact ih second steps tail head inner
        (fun slot member => small slot (List.mem_cons_of_mem other member))
        (by simpa using enough)

end StaticImage.Table
