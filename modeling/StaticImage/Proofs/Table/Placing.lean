import StaticImage.Proofs.Table.Keeping
import StaticImage.Proofs.Table.Lookup

/-!
Placing a new key. A key whose main position is free goes there. Where a key of its own bucket
stands, it is linked behind that one; where a key of another bucket stands, that one moves out to
a free slot and its predecessor links to the new place.
-/

namespace StaticImage.Table

theorem Valid.tidy {t : Table} (valid : t.Valid) : t.Tidy :=
  ⟨valid.counted, valid.bounded, valid.filled⟩

/-- A bucket is empty unless one of its own keys stands at its main position. -/
theorem Valid.empty_chain {t : Table} (valid : t.Valid) (main : Nat)
    (foreign : t.homeAt? main ≠ some main) : t.Chain main [] := by
  obtain ⟨slots, chain⟩ := valid.chained main
  cases slots with
  | nil => exact chain
  | cons first rest =>
      have start : first = main := chain.starts first rfl
      subst start
      exact (foreign ((chain.covers first).mp List.mem_cons_self)).elim

theorem Valid.chain_from {t : Table} (valid : t.Valid) (main : Nat)
    (own : t.homeAt? main = some main) : ∃ rest, t.Chain main (main :: rest) := by
  obtain ⟨slots, chain⟩ := valid.chained main
  have member : main ∈ slots := (chain.covers main).mpr own
  cases slots with
  | nil => cases member
  | cons first rest =>
      have start : first = main := chain.starts first rfl
      subst start
      exact ⟨rest, chain⟩

theorem Valid.chain_before {t : Table} (valid : t.Valid) (slot : Nat) (e : Entry)
    (present : t.entryAt? slot = some e) (away : t.mainPosition e.key.data ≠ slot) :
    ∃ front before rest,
      t.Chain (t.mainPosition e.key.data) (front ++ before :: slot :: rest) := by
  obtain ⟨front, rest, chain⟩ := valid.chain_through slot e present
  rcases List.eq_nil_or_concat front with rfl | ⟨front, before, rfl⟩
  · exact (away (chain.starts slot rfl).symm).elim
  · exact ⟨front, before, rest, by simpa using chain⟩

theorem Valid.add {t u : Table} (valid : t.Valid) (key value : Value)
    (fresh : key.data ∉ t.keys) (named : key.data ≠ .nil) (size : u.size = t.size) (tidy : u.Tidy)
    (bindings : u.bindings.Perm ((key, value) :: t.bindings))
    (chained : ∀ main, ∃ slots, u.Chain main slots) : u.Valid := by
  have keys : u.keys.Perm (key.data :: t.keys) := bindings.map fun b : Value × Value => b.1.data
  exact {
    small := by rw [size]; exact valid.small
    counted := tidy.counted
    bounded := tidy.bounded
    filled := tidy.filled
    distinct := keys.nodup_iff.mpr (List.nodup_cons.mpr ⟨fresh, valid.distinct⟩)
    named := by
      rw [keys.mem_iff, List.mem_cons]
      rintro (same | member)
      · exact named same.symm
      · exact valid.named member
    chained := chained }

/-- A taken main position, and the free slot found for the key that comes second. -/
structure Collision (t : Table) (main free : Nat) (occupant : Entry) : Prop where
  taken : t.entryAt? main = some occupant
  vacant : t.entryAt? free = none
  inside : free < t.size

def linkBehind (t : Table) (key value : Value) (main free : Nat) (occupant : Entry) : Table :=
  ((t.reserve free).setSlot free (some ⟨key, value, occupant.next⟩)).setSlot main
    (some { occupant with next := UInt32.ofNat free })

def moveOut (t : Table) (key value : Value) (main free before : Nat) (occupant link : Entry) :
    Table :=
  (((t.reserve free).setSlot before (some { link with next := UInt32.ofNat free })).setSlot free
    (some occupant)).setSlot main (some ⟨key, value, chainEnd⟩)

@[simp]
theorem size_linkBehind (t : Table) (key value : Value) (main free : Nat) (occupant : Entry) :
    (t.linkBehind key value main free occupant).size = t.size :=
  (size_setSlot _ main _).trans (size_setSlot (t.reserve free) free _)

@[simp]
theorem size_moveOut (t : Table) (key value : Value) (main free before : Nat)
    (occupant link : Entry) :
    (t.moveOut key value main free before occupant link).size = t.size :=
  (size_setSlot _ main _).trans
    ((size_setSlot _ free _).trans (size_setSlot (t.reserve free) before _))

theorem place_eq_linkBehind (t : Table) (key value : Value) (free : Nat) (occupant : Entry)
    (collision : t.Collision (t.mainPosition key.data) free occupant)
    (found : t.freeBelow t.lastFree = some free)
    (own : t.mainPosition occupant.key.data = t.mainPosition key.data) :
    t.place key value = t.linkBehind key value (t.mainPosition key.data) free occupant := by
  have still : ((t.reserve free).setSlot free (some ⟨key, value, occupant.next⟩)).entryAt?
      (t.mainPosition key.data) = some occupant := by
    rw [entryAt?_setSlot (t.reserve free) free _ _ collision.inside, if_neg]
    · exact collision.taken
    · intro same
      have vacant := collision.vacant
      rw [← same, collision.taken] at vacant
      cases vacant
  unfold place
  simp only [collision.taken, found, own, if_true]
  exact setNext_eq _ _ occupant _ still

theorem place_eq_moveOut (t : Table) (key value : Value) (free before : Nat)
    (occupant link : Entry) (front rest : List Nat) (valid : t.Valid)
    (taken : t.entryAt? (t.mainPosition key.data) = some occupant)
    (found : t.freeBelow t.lastFree = some free)
    (foreign : t.mainPosition occupant.key.data ≠ t.mainPosition key.data)
    (linked : t.entryAt? before = some link)
    (chain : t.Chain (t.mainPosition occupant.key.data)
      (front ++ before :: t.mainPosition key.data :: rest)) :
    t.place key value =
      t.moveOut key value (t.mainPosition key.data) free before occupant link := by
  have search : (t.reserve free).predecessor (t.mainPosition key.data) t.size
      (t.mainPosition occupant.key.data) = before :=
    predecessor_found (t.reserve free) front rest _ before _ t.size
      (chain.linked.frame _ fun _ _ => rfl) chain.head chain.nodup (chain.small valid) chain.steps
  have relink : (t.reserve free).setNext before (UInt32.ofNat free) =
      (t.reserve free).setSlot before (some { link with next := UInt32.ofNat free }) :=
    setNext_eq (t.reserve free) before link _ linked
  unfold place
  simp only [taken, found, if_neg foreign]
  change ((((t.reserve free).setNext ((t.reserve free).predecessor (t.mainPosition key.data) t.size
    (t.mainPosition occupant.key.data)) (UInt32.ofNat free)).setSlot free (some occupant)).setSlot
      (t.mainPosition key.data) (some ⟨key, value, chainEnd⟩)) = _
  rw [search, relink, moveOut]

namespace Collision

variable {t : Table} {main free : Nat} {occupant : Entry} (key value : Value)
  (collision : t.Collision main free occupant)

include collision

theorem main_ne_free : main ≠ free := by
  intro same
  have taken := collision.taken
  rw [same, collision.vacant] at taken
  cases taken

theorem main_inside : main < t.size :=
  entryAt?_lt t main occupant collision.taken

theorem free_was : t.homeAt? free = none := by
  simp [homeAt?, collision.vacant]

theorem main_was : t.homeAt? main = some (t.mainPosition occupant.key.data) := by
  simp [homeAt?, collision.taken]

theorem entryAt?_linkBehind (slot : Nat) :
    (t.linkBehind key value main free occupant).entryAt? slot =
      if slot = main then some { occupant with next := UInt32.ofNat free }
      else if slot = free then some ⟨key, value, occupant.next⟩ else t.entryAt? slot := by
  have inside : main < ((t.reserve free).setSlot free
      (some ⟨key, value, occupant.next⟩)).size := by
    rw [size_setSlot]
    exact collision.main_inside
  rw [linkBehind, entryAt?_setSlot _ main slot _ inside,
    entryAt?_setSlot (t.reserve free) free slot _ collision.inside]
  rfl

theorem linkBehind_same (slot : Nat) (outside : slot ∉ [main, free]) :
    (t.linkBehind key value main free occupant).entryAt? slot = t.entryAt? slot := by
  simp only [List.mem_cons, List.not_mem_nil, or_false, not_or] at outside
  rw [collision.entryAt?_linkBehind, if_neg outside.1, if_neg outside.2]

theorem linkBehind_homes (own : t.mainPosition occupant.key.data = main)
    (home : t.mainPosition key.data = main) :
    (t.linkBehind key value main free occupant).homeAt? main = some main ∧
      (t.linkBehind key value main free occupant).homeAt? free = some main := by
  have size := size_linkBehind t key value main free occupant
  have slots := collision.entryAt?_linkBehind key value
  constructor
  · simp [homeAt?, slots, own, mainPosition_congr t _ _ size]
  · simp [homeAt?, slots, home, Ne.symm collision.main_ne_free, mainPosition_congr t _ _ size]

theorem linkBehind_chain (rest : List Nat) (chain : t.Chain main (main :: rest))
    (own : t.mainPosition occupant.key.data = main) (home : t.mainPosition key.data = main) :
    (t.linkBehind key value main free occupant).Chain main (main :: free :: rest) := by
  have slots := collision.entryAt?_linkBehind key value
  have same := collision.linkBehind_same key value
  obtain ⟨main_home, free_home⟩ := collision.linkBehind_homes key value own home
  obtain ⟨⟨e, present, link⟩, tail⟩ := chain.linked
  have equal : e = occupant := Option.some.inj (present.symm.trans collision.taken)
  subst equal
  have parts := List.nodup_cons.mp chain.nodup
  have new_free : free ∉ rest := by
    intro member
    have covered := (chain.covers free).mp (List.mem_cons_of_mem main member)
    rw [collision.free_was] at covered
    cases covered
  have untouched (slot : Nat) (member : slot ∈ rest) : slot ∉ [main, free] := by
    simp only [List.mem_cons, List.not_mem_nil, or_false, not_or]
    exact ⟨fun clash => parts.1 (clash ▸ member), fun clash => new_free (clash ▸ member)⟩
  refine chain.rebuild (main :: free :: rest) [main, free] (size_linkBehind t _ _ _ _ _) same
    (by simp) ⟨⟨{ e with next := UInt32.ofNat free }, ?_, rfl⟩, ⟨⟨key, value, e.next⟩, ?_, link⟩,
      ?_⟩ ?_ ?_ ?_
  · rw [slots, if_pos rfl]
  · rw [slots, if_neg (Ne.symm collision.main_ne_free), if_pos rfl]
  · exact tail.frame rest fun slot member => same slot (untouched slot member)
  · simp [collision.main_ne_free, parts.1, parts.2, new_free]
  · simp +contextual
  · simp [main_home, free_home]

variable {front rest : List Nat} {home before : Nat} (link : Entry)
  (linked : t.entryAt? before = some link)
  (chain : t.Chain home (front ++ before :: main :: rest))

include chain

theorem free_ne_before : free ≠ before := by
  intro clash
  have before_was : t.homeAt? before = some home := (chain.covers before).mp (by simp)
  rw [← clash, collision.free_was] at before_was
  cases before_was

theorem occupant_home : t.mainPosition occupant.key.data = home := by
  have main_was : t.homeAt? main = some home := (chain.covers main).mp (by simp)
  exact Option.some.inj (collision.main_was.symm.trans main_was)

theorem entryAt?_moveOut (slot : Nat) :
    (t.moveOut key value main free before occupant link).entryAt? slot =
      if slot = main then some ⟨key, value, chainEnd⟩ else if slot = free then some occupant
      else if slot = before then some { link with next := UInt32.ofNat free }
      else t.entryAt? slot := by
  have before_inside : before < (t.reserve free).size := chain.lt_size before (by simp)
  have free_inside : free < (t.reserve free).size := collision.inside
  have main_inside : main < (t.reserve free).size := collision.main_inside
  rw [moveOut, entryAt?_setSlot _ main slot _ (by rwa [size_setSlot, size_setSlot]),
    entryAt?_setSlot _ free slot _ (by rwa [size_setSlot]),
    entryAt?_setSlot _ before slot _ before_inside]
  rfl

theorem moveOut_same (slot : Nat) (outside : slot ∉ [main, free, before]) :
    (t.moveOut key value main free before occupant link).entryAt? slot = t.entryAt? slot := by
  simp only [List.mem_cons, List.not_mem_nil, or_false, not_or] at outside
  rw [collision.entryAt?_moveOut key value link chain, if_neg outside.1, if_neg outside.2.1,
    if_neg outside.2.2]

include linked

theorem moveOut_homes (own : t.mainPosition key.data = main) :
    (t.moveOut key value main free before occupant link).homeAt? main = some main ∧
      (t.moveOut key value main free before occupant link).homeAt? free = some home ∧
      (t.moveOut key value main free before occupant link).homeAt? before = some home := by
  have size := size_moveOut t key value main free before occupant link
  have slots := collision.entryAt?_moveOut key value link chain
  have before_was : t.homeAt? before = some home := (chain.covers before).mp (by simp)
  refine ⟨?_, ?_, ?_⟩
  · simp [homeAt?, slots, own, mainPosition_congr t _ _ size]
  · simp [homeAt?, slots, Ne.symm collision.main_ne_free, collision.occupant_home chain,
      mainPosition_congr t _ _ size]
  · rw [← before_was]
    simp [homeAt?, slots, chain.successive_ne,
      Ne.symm (collision.free_ne_before chain), linked, mainPosition_congr t _ _ size]

theorem moveOut_chains (valid : t.Valid) (own : t.mainPosition key.data = main)
    (foreign : home ≠ main) :
    (t.moveOut key value main free before occupant link).Chain main [main] ∧
      (t.moveOut key value main free before occupant link).Chain home
        (front ++ before :: free :: rest) := by
  have size := size_moveOut t key value main free before occupant link
  have slots := collision.entryAt?_moveOut key value link chain
  have same := collision.moveOut_same key value link chain
  have free_main := Ne.symm collision.main_ne_free
  have before_main := chain.successive_ne
  have free_before := collision.free_ne_before chain
  obtain ⟨main_home, free_home, before_home⟩ :=
    collision.moveOut_homes key value link linked chain own
  constructor
  · have empty := valid.empty_chain main
      (by simpa [collision.main_was, collision.occupant_home chain] using foreign)
    refine empty.rebuild [main] [main, free, before] size same (by simp)
      ⟨⟨⟨key, value, chainEnd⟩, ?_, rfl⟩, trivial⟩ (List.nodup_singleton main)
      (by simp +contextual) ?_
    · rw [slots, if_pos rfl]
    · simp [main_home, free_home, before_home, free_main, before_main, foreign]
  · refine chain.exchange free size same (by simp [collision.free_was])
      ⟨{ link with next := UInt32.ofNat free }, ?_, rfl⟩ ?_ before_home ?_
    · rw [slots, if_neg before_main, if_neg (Ne.symm free_before), if_pos rfl]
    · rw [slots, if_neg free_main, if_pos rfl]
      exact collision.taken.symm
    · rw [main_home]
      exact fun clash => foreign (Option.some.inj clash).symm

end Collision

section

variable (t : Table) (key value : Value) (valid : t.Valid)

include valid

theorem place_vacant (room : t.count < t.size)
    (vacant : t.entryAt? (t.mainPosition key.data) = none) (home : Nat) :
    ∃ slots, (t.place key value).Chain home slots := by
  let main := t.mainPosition key.data
  let new : Entry := ⟨key, value, chainEnd⟩
  let u : Table := { t.setSlot main (some new) with count := t.count + 1 }
  have placed : t.place key value = u := by
    unfold place
    simp only [vacant]
    rfl
  have inside : main < t.size := Nat.mod_lt _ (by omega)
  have size : u.size = t.size := size_setSlot t main _
  have slots (slot : Nat) : u.entryAt? slot = if slot = main then some new else t.entryAt? slot :=
    entryAt?_setSlot t main slot _ inside
  have here : u.homeAt? main = some main := by
    simp [homeAt?, slots, new, main, mainPosition_congr t u _ size]
  have was : t.homeAt? main = none := by simp [homeAt?, main, vacant]
  have same (slot : Nat) (outside : slot ∉ [main]) : u.entryAt? slot = t.entryAt? slot := by
    rw [slots, if_neg (by simpa using outside)]
  have alone : u.Chain main [main] := by
    refine (valid.empty_chain main (by simp [was])).rebuild [main] [main] size same (by simp)
      ⟨⟨new, ?_, rfl⟩, trivial⟩ (List.nodup_singleton main) (by simp) (by simp [here])
    rw [slots, if_pos rfl]
  rw [placed]
  exact valid.rechain size [main] [main] same (by simp [was, here])
    (by simpa using ⟨[main], alone⟩) home

theorem place_behind (occupant : Entry) (free : Nat)
    (collision : t.Collision (t.mainPosition key.data) free occupant)
    (found : t.freeBelow t.lastFree = some free)
    (own : t.mainPosition occupant.key.data = t.mainPosition key.data) (home : Nat) :
    ∃ slots, (t.place key value).Chain home slots := by
  rw [place_eq_linkBehind t key value free occupant collision found own]
  have size := size_linkBehind t key value (t.mainPosition key.data) free occupant
  have main_was := collision.main_was
  rw [own] at main_was
  obtain ⟨main_home, free_home⟩ := collision.linkBehind_homes key value own rfl
  obtain ⟨rest, chain⟩ := valid.chain_from (t.mainPosition key.data) main_was
  have longer := collision.linkBehind_chain key value rest chain own rfl
  exact valid.rechain size [t.mainPosition key.data, free] [t.mainPosition key.data]
    (collision.linkBehind_same key value)
    (by simp [main_was, collision.free_was, main_home, free_home])
    (by simpa using ⟨_, longer⟩) home

theorem place_moving (occupant : Entry) (free : Nat)
    (collision : t.Collision (t.mainPosition key.data) free occupant)
    (found : t.freeBelow t.lastFree = some free)
    (foreign : t.mainPosition occupant.key.data ≠ t.mainPosition key.data) (home : Nat) :
    ∃ slots, (t.place key value).Chain home slots := by
  obtain ⟨front, before, rest, chain⟩ :=
    valid.chain_before (t.mainPosition key.data) occupant collision.taken foreign
  obtain ⟨link, linked, _⟩ := chain.linked.entry front _ before
  rw [place_eq_moveOut t key value free before occupant link front rest valid collision.taken found
    foreign linked chain]
  have size := size_moveOut t key value (t.mainPosition key.data) free before occupant link
  have before_was := (chain.covers before).mp (by simp)
  obtain ⟨main_home, free_home, before_home⟩ :=
    collision.moveOut_homes key value link linked chain rfl
  obtain ⟨alone, moved⟩ := collision.moveOut_chains key value link linked chain valid rfl foreign
  exact valid.rechain size [t.mainPosition key.data, free, before]
    [t.mainPosition key.data, t.mainPosition occupant.key.data]
    (collision.moveOut_same key value link chain)
    (by simp [collision.main_was, collision.free_was, before_was, main_home, free_home,
      before_home])
    (by simpa using ⟨⟨_, alone⟩, ⟨_, moved⟩⟩) home

theorem place_chained (room : t.count < t.size) (home : Nat) :
    ∃ slots, (t.place key value).Chain home slots := by
  cases start : t.entryAt? (t.mainPosition key.data) with
  | none => exact place_vacant t key value valid room start home
  | some occupant =>
      obtain ⟨free, found⟩ := valid.tidy.exists_free room
      obtain ⟨below, vacant, _⟩ := freeBelow_some t t.lastFree free found
      have collision : t.Collision (t.mainPosition key.data) free occupant :=
        ⟨start, vacant, Nat.lt_of_lt_of_le below valid.bounded⟩
      by_cases own : t.mainPosition occupant.key.data = t.mainPosition key.data
      · exact place_behind t key value valid occupant free collision found own home
      · exact place_moving t key value valid occupant free collision found own home

/-- Placing an absent key where there is room adds its binding and keeps the layout. -/
theorem place_spec (fresh : key.data ∉ t.keys) (named : key.data ≠ .nil)
    (room : t.count < t.size) : (t.place key value).Valid ∧
      (t.place key value).bindings.Perm ((key, value) :: t.bindings) := by
  obtain ⟨tidy, bindings⟩ := valid.tidy.place key value room
  have chained := place_chained t key value valid room
  have size := size_place t key value
  exact ⟨valid.add key value fresh named size tidy bindings chained, bindings⟩

end

end StaticImage.Table
