import StaticImage.Proofs.Table.FiniteMap
import StaticImage.Proofs.Table.Keeping

/-!
Tables of any size. Past the slots that links can tell apart chains may break, but the counter of a
table never falls below the number of its entries; so there is room for all of them when the table is
compacted, and none is lost.
-/

namespace StaticImage.Table

def made (size : Nat) (history : List Operation) : Table :=
  history.foldr (fun operation t => t.apply operation) (sized size)

theorem length_setSlot (t : Table) (slot : Nat) (e : Option Entry) (inside : slot < t.size) :
    (slotBindings (t.entryAt? slot)).length + (t.setSlot slot e).bindings.length =
      (slotBindings e).length + t.bindings.length := by
  simpa using (bindings_setSlot t slot e inside).length_eq

theorem length_fill_le (t : Table) (slot : Nat) (e : Entry) :
    (t.setSlot slot (some e)).bindings.length ≤ t.bindings.length + 1 ∧
      (t.entryAt? slot ≠ none → (t.setSlot slot (some e)).bindings.length = t.bindings.length) := by
  by_cases inside : slot < t.size
  · have lengths := length_setSlot t slot (some e) inside
    have one : (slotBindings (some e)).length = 1 := rfl
    refine ⟨by omega, fun taken => ?_⟩
    obtain ⟨old, present⟩ := Option.ne_none_iff_exists'.mp taken
    rw [present] at lengths
    have old_one : (slotBindings (some old)).length = 1 := rfl
    omega
  · rw [setSlot_outside t slot (some e) (Nat.le_of_not_lt inside)]
    exact ⟨Nat.le_succ _, fun _ => rfl⟩

theorem length_setNext (t : Table) (slot : Nat) (next : UInt32) :
    (t.setNext slot next).bindings.length = t.bindings.length :=
  (bindings_setNext t slot next).length_eq

theorem length_clear (t : Table) (slot : Nat) (e : Entry) (present : t.entryAt? slot = some e) :
    (t.clear slot).bindings.length + 1 = t.bindings.length :=
  (bindings_drop t slot e present).length_eq

/-- Placing a key counts it at least once. -/
theorem place_counts (t : Table) (key value : Value) (enough : t.bindings.length ≤ t.count) :
    (t.place key value).bindings.length ≤ (t.place key value).count := by
  cases occupied : t.entryAt? (t.mainPosition key.data) with
  | none =>
      have filled := (length_fill_le t (t.mainPosition key.data) ⟨key, value, chainEnd⟩).1
      unfold place
      simp only [occupied]
      exact Nat.le_trans filled (Nat.succ_le_succ enough)
  | some occupant =>
      cases found : t.freeBelow t.lastFree with
      | none =>
          unfold place
          simp only [occupied, found]
          exact enough
      | some free =>
          rw [place_collision t key value free occupant occupied found]
          generalize t.mainPosition key.data = main at occupied
          have reserved : (t.reserve free).bindings.length = t.bindings.length := rfl
          split
          · have filled := (length_fill_le (t.reserve free) free ⟨key, value, occupant.next⟩).1
            have count : ((t.reserve free).setSlot free (some ⟨key, value, occupant.next⟩)).count =
                t.count + 1 := rfl
            rw [length_setNext, count_setNext, count]
            omega
          · generalize (t.reserve free).predecessor main t.size (t.mainPosition occupant.key.data) =
              before
            have linked := length_setNext (t.reserve free) before (UInt32.ofNat free)
            have count := count_setNext (t.reserve free) before (UInt32.ofNat free)
            have taken := setNext_taken (t.reserve free) before main (UInt32.ofNat free)
            rw [entryAt?_reserve, occupied] at taken
            generalize (t.reserve free).setNext before (UInt32.ofNat free) = u at linked count taken
            have moved := (length_fill_le u free occupant).1
            have still := setSlot_taken u free main occupant (by simpa using taken)
            have written := (length_fill_le (u.setSlot free (some occupant)) main
              ⟨key, value, chainEnd⟩).2 still
            have total : u.count = t.count + 1 := count
            change _ ≤ u.count
            omega

theorem resize_counts (t : Table) (size : Nat) (enough : t.bindings.length ≤ t.count) :
    (t.resize size).bindings.Perm t.bindings ∧
      (t.resize size).bindings.length ≤ (t.resize size).count := by
  unfold resize
  split
  · exact ⟨.refl _, enough⟩
  · rename_i fits
    obtain ⟨placed, all⟩ := tidy_replaced t size (by omega)
    exact ⟨all, Nat.le_of_eq placed.counted.symm⟩

theorem compact_counts (t : Table) (enough : t.bindings.length ≤ t.count) :
    t.compact.bindings.Perm t.bindings ∧ t.compact.bindings.length ≤ t.compact.count := by
  unfold compact
  split
  · exact ⟨.refl _, enough⟩
  · exact resize_counts t t.count enough

theorem insert_counts (t u : Table) (key value : Value) (old : Option Value)
    (enough : t.bindings.length ≤ t.count) (inserted : t.insert key value = .ok (old, u)) :
    u.bindings.length ≤ u.count := by
  unfold insert at inserted
  split at inserted
  · cases inserted
  · split at inserted
    · rename_i slot before located
      split at inserted
      · rename_i e present
        cases inserted
        have same := (length_fill_le t slot { e with value := value }).2 (by simp [present])
        rw [same]
        exact enough
      · cases inserted
        exact enough
    · cases inserted
      refine place_counts t.grow key value ?_
      unfold grow
      split
      · exact (resize_counts t _ enough).2
      · exact enough

theorem length_clear_free (t : Table) (slot : Nat) (free : t.entryAt? slot = none) :
    (t.clear slot).bindings.length = t.bindings.length := by
  have cleared : (t.clear slot).bindings = (t.setSlot slot none).bindings := rfl
  rw [cleared]
  by_cases inside : slot < t.size
  · have lengths := length_setSlot t slot none inside
    rw [free] at lengths
    exact Nat.add_left_cancel lengths
  · rw [setSlot_outside t slot none (Nat.le_of_not_lt inside)]

/-- One binding is dropped when an entry is overwritten with what another slot holds and that slot is
emptied, also if that slot is free or the same one. -/
theorem length_overwrite (t : Table) (slot second : Nat) (e : Entry)
    (present : t.entryAt? slot = some e) :
    ((t.setSlot slot (t.entryAt? second)).clear second).bindings.length + 1 = t.bindings.length := by
  have inside := entryAt?_lt t slot e present
  have moved := length_setSlot t slot (t.entryAt? second) inside
  have there := entryAt?_setSlot t slot second (t.entryAt? second) inside
  rw [ite_self] at there
  rw [present] at moved
  cases follower : t.entryAt? second with
  | none =>
      rw [follower] at moved there
      rw [length_clear_free _ second there, Nat.add_comm]
      simpa [slotBindings] using moved
  | some f =>
      rw [follower] at moved there
      rw [length_clear _ second f there]
      exact Nat.add_left_cancel moved

theorem remove_counts (t : Table) (key : Value) (enough : t.bindings.length ≤ t.count) :
    (t.remove key).2.bindings.length ≤ (t.remove key).2.count := by
  have fewer {u : Table} (count : u.count = t.count - 1)
      (length : u.bindings.length + 1 = t.bindings.length) : u.bindings.length ≤ u.count := by
    omega
  unfold remove
  split
  · exact enough
  · rename_i slot before located
    split
    · exact enough
    · rename_i e present
      split
      · rename_i before
        have taken := setNext_taken t before slot e.next
        rw [present] at taken
        obtain ⟨f, there⟩ := Option.ne_none_iff_exists'.mp (by simpa using taken)
        refine fewer (congrArg (· - 1) (count_setNext t before e.next)) ?_
        rw [length_clear _ slot f there, length_setNext]
      · split
        · exact fewer rfl (length_clear t slot e present)
        · exact fewer rfl (length_overwrite t slot e.next.toNat e present)

theorem apply_counts (t : Table) (operation : Operation) (enough : t.bindings.length ≤ t.count) :
    (t.apply operation).bindings.length ≤ (t.apply operation).count := by
  cases operation with
  | insert key value =>
      cases inserted : t.insert key value with
      | ok outcome =>
          rw [apply_insert t outcome.2 key value outcome.1 inserted]
          exact insert_counts t outcome.2 key value outcome.1 enough inserted
      | error why =>
          simp only [apply, inserted]
          exact enough
  | remove key => exact remove_counts t key enough
  | compact => exact (compact_counts t enough).2

theorem made_counts (size : Nat) (history : List Operation) :
    (made size history).bindings.length ≤ (made size history).count := by
  induction history with
  | nil => simp [made]
  | cons operation earlier ih => exact apply_counts (made size earlier) operation ih

/-- Whatever operations made a table, of whatever size, compaction keeps all that it binds. -/
theorem compact_made (size : Nat) (history : List Operation) :
    (made size history).compact.bindings.Perm (made size history).bindings :=
  (compact_counts _ (made_counts size history)).1

end StaticImage.Table
