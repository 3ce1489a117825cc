import Mathlib.Data.List.Forall2
import StaticImage.Proofs.Table.Contents

namespace StaticImage

structure Entry.Like (R : Value → Value → Prop) (e f : Entry) : Prop where
  key : e.key = f.key
  next : e.next = f.next
  value : R e.value f.value

namespace Table

structure Like (R : Value → Value → Prop) (t u : Table) : Prop where
  size : t.size = u.size
  count : t.count = u.count
  lastFree : t.lastFree = u.lastFree
  slots : ∀ slot, Option.Rel (Entry.Like R) (t.entryAt? slot) (u.entryAt? slot)

variable {R : Value → Value → Prop} {t u : Table}

theorem like_sized (size : Nat) : (sized size).Like R (sized size) := by
  refine ⟨rfl, rfl, rfl, fun slot => ?_⟩
  rw [entryAt?_sized]
  exact .none

namespace Like

section

variable (like : t.Like R u)

include like

theorem mainPosition (key : Datum) : t.mainPosition key = u.mainPosition key := by
  rw [Table.mainPosition, Table.mainPosition, like.size]

theorem entries : List.Forall₂ (Entry.Like R) t.entries u.entries := by
  have slots : List.Forall₂ (Option.Rel (Entry.Like R)) t.slots.toList u.slots.toList := by
    refine List.forall₂_iff_get.mpr ⟨by simpa [Table.size] using like.size, ?_⟩
    intro slot left right
    have here := like.slots slot
    rw [Array.length_toList] at left right
    simpa [entryAt?, left, right] using here
  exact List.rel_filterMap (fun _ _ same => same) slots

theorem freeBelow (bound : Nat) : t.freeBelow bound = u.freeBelow bound := by
  induction bound with
  | zero => rfl
  | succ slot ih =>
      have vacant : (t.entryAt? slot).isNone = (u.entryAt? slot).isNone := by
        have here := like.slots slot
        generalize t.entryAt? slot = left, u.entryAt? slot = right at here
        cases here with
        | none => rfl
        | some => rfl
      rw [Table.freeBelow, Table.freeBelow, vacant, ih]

theorem predecessor (target steps slot : Nat) :
    t.predecessor target steps slot = u.predecessor target steps slot := by
  induction steps generalizing slot with
  | zero => rfl
  | succ steps ih =>
      rw [Table.predecessor, Table.predecessor]
      have here := like.slots slot
      generalize t.entryAt? slot = left, u.entryAt? slot = right at here
      cases here with
      | none => rfl
      | some same =>
          dsimp only
          rw [same.next, ih]

theorem follow (key : Datum) (steps slot : Nat) (before : Option Nat) :
    t.follow key steps slot before = u.follow key steps slot before := by
  induction steps generalizing slot before with
  | zero => rfl
  | succ steps ih =>
      rw [Table.follow, Table.follow]
      have here := like.slots slot
      generalize t.entryAt? slot = left, u.entryAt? slot = right at here
      cases here with
      | none => rfl
      | some same =>
          dsimp only
          rw [same.key, Entry.isLast, Entry.isLast, same.next, ih]

theorem locate? (key : Datum) : t.locate? key = u.locate? key := by
  rw [Table.locate?, Table.locate?, like.size, like.mainPosition, like.follow]

theorem setSlot (slot : Nat) {e f : Option Entry} (new : Option.Rel (Entry.Like R) e f) :
    (t.setSlot slot e).Like R (u.setSlot slot f) := by
  refine ⟨?_, like.count, like.lastFree, fun other => ?_⟩
  · rw [size_setSlot, size_setSlot, like.size]
  · by_cases inside : slot < t.size
    · rw [entryAt?_setSlot t slot other e inside,
        entryAt?_setSlot u slot other f (like.size ▸ inside)]
      split
      · exact new
      · exact like.slots other
    · have outside : ¬ slot < u.size := like.size ▸ inside
      rw [Table.size, Nat.not_lt] at inside outside
      rw [Table.setSlot, Table.setSlot, Array.setIfInBounds_eq_of_size_le inside,
        Array.setIfInBounds_eq_of_size_le outside]
      exact like.slots other

theorem setNext (slot : Nat) (next : UInt32) :
    (t.setNext slot next).Like R (u.setNext slot next) := by
  rw [Table.setNext, Table.setNext]
  have here := like.slots slot
  generalize t.entryAt? slot = left, u.entryAt? slot = right at here
  cases here with
  | none => exact like
  | some same => exact like.setSlot slot (.some ⟨same.key, rfl, same.value⟩)

theorem recounted (count lastFree : Nat) :
    (⟨t.slots, count, lastFree⟩ : Table).Like R ⟨u.slots, count, lastFree⟩ :=
  ⟨like.size, rfl, rfl, like.slots⟩

theorem place (key : Value) {v w : Value} (related : R v w) :
    (t.place key v).Like R (u.place key w) := by
  have new (next : UInt32) :
      Option.Rel (Entry.Like R) (some ⟨key, v, next⟩) (some ⟨key, w, next⟩) :=
    .some ⟨rfl, rfl, related⟩
  have here := like.slots (u.mainPosition key.data)
  rw [Table.place, Table.place]
  dsimp only
  rw [like.mainPosition, like.count, like.lastFree, like.freeBelow]
  generalize t.entryAt? (u.mainPosition key.data) = left,
    u.entryAt? (u.mainPosition key.data) = right at here
  cases here with
  | none =>
      have filled := like.setSlot (u.mainPosition key.data) (new chainEnd)
      exact ⟨filled.size, rfl, filled.lastFree, filled.slots⟩
  | some same =>
      dsimp only
      split
      · exact like.recounted u.count 0
      · rename_i free found
        have reserved := like.recounted (u.count + 1) free
        rw [same.key, same.next, like.mainPosition]
        split
        · exact (reserved.setSlot free (new _)).setNext _ _
        · rw [reserved.predecessor, reserved.size]
          exact ((reserved.setNext _ _).setSlot free (.some same)).setSlot _ (new chainEnd)

theorem placeAll {left right : List Entry} (entries : List.Forall₂ (Entry.Like R) left right) :
    (t.placeAll left).Like R (u.placeAll right) := by
  induction entries generalizing t u with
  | nil => exact like
  | @cons e f left right same _ ih =>
      have placed := like.place e.key same.value
      have step : (t.placeAll (e :: left)) = (t.place e.key e.value).placeAll left := rfl
      have other : (u.placeAll (f :: right)) = (u.place e.key f.value).placeAll right := by
        rw [same.key]
        rfl
      rw [step, other]
      exact ih placed

theorem resize (size : Nat) : (t.resize size).Like R (u.resize size) := by
  rw [Table.resize, Table.resize, like.count]
  split
  · exact like
  · exact (like_sized size).placeAll like.entries

theorem compact : t.compact.Like R u.compact := by
  rw [Table.compact, Table.compact, like.count, like.size]
  split
  · exact like
  · exact like.resize u.count

theorem grow : t.grow.Like R u.grow := by
  rw [Table.grow, Table.grow, like.count, like.size]
  split
  · exact like.resize _
  · exact like

theorem insert (key : Value) {v w : Value} (related : R v w) {old : Option Value} {next : Table}
    (inserted : t.insert key v = .ok (old, next)) :
    ∃ old' next', u.insert key w = .ok (old', next') ∧ next.Like R next' := by
  rw [Table.insert] at inserted ⊢
  rw [like.locate?] at inserted
  split at inserted
  · cases inserted
  · rename_i named
    rw [if_neg named]
    cases located : u.locate? key.data with
    | none =>
        simp only [located] at inserted
        cases inserted
        exact ⟨_, _, rfl, like.grow.place key related⟩
    | some place =>
        obtain ⟨slot, before⟩ := place
        have here := like.slots slot
        simp only [located] at inserted ⊢
        generalize t.entryAt? slot = left, u.entryAt? slot = right at here inserted
        cases here with
        | none =>
            cases inserted
            exact ⟨_, _, rfl, like⟩
        | some same =>
            cases inserted
            exact ⟨_, _, rfl, like.setSlot slot (.some ⟨same.key, same.next, related⟩)⟩

/-- Tables built from the same keys lie alike. -/
theorem insertAll {left right : List (Value × Value)} {made other : Table}
    (bindings : List.Forall₂ (fun a b => a.1 = b.1 ∧ R a.2 b.2) left right)
    (built : t.insertAll left = .ok made) (also : u.insertAll right = .ok other) :
    made.Like R other := by
  induction bindings generalizing t u with
  | nil =>
      cases built
      cases also
      exact like
  | @cons a b left right same _ ih =>
      obtain ⟨old, next, inserted, rest⟩ := (insertAll_cons t made a.1 a.2 left).mp built
      obtain ⟨old', next', inserted', rest'⟩ := (insertAll_cons u other b.1 b.2 right).mp also
      obtain ⟨_, _, there, like⟩ := like.insert a.1 same.2 inserted
      rw [same.1, inserted'] at there
      cases there
      exact ih like rest rest'

end

end Like

end Table

end StaticImage
