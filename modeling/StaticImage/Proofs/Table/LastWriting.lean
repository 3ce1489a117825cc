import StaticImage.Proofs.Table.Bindings

namespace StaticImage.Table

section

variable {β : Type}

/-- A key that is written again keeps its place and holds what is written last. -/
def put (bindings : List (Value × β)) (key : Value) (x : β) : List (Value × β) :=
  match bindings with
  | [] => [(key, x)]
  | (k, y) :: rest => if k.data = key.data then (k, x) :: rest else (k, y) :: put rest key x

def putAll (bindings : List (Value × β)) : List (Value × β) → List (Value × β)
  | [] => bindings
  | e :: written => putAll (put bindings e.1 e.2) written

/-- Each key that is written, where it is written first, with what is written last. -/
def lastWritten (written : List (Value × β)) : List (Value × β) :=
  putAll [] written

variable {key : Value} {x : β}

theorem put_append {front : List (Value × β)} (other : ∀ e ∈ front, e.1.data ≠ key.data)
    (back : List (Value × β)) : put (front ++ back) key x = front ++ put back key x := by
  induction front with
  | nil => rfl
  | cons e front ih =>
      rw [List.cons_append, put, if_neg (other e List.mem_cons_self),
        ih fun f member => other f (List.mem_cons_of_mem e member)]
      rfl

theorem put_absent {bindings : List (Value × β)} (other : ∀ e ∈ bindings, e.1.data ≠ key.data) :
    put bindings key x = bindings ++ [(key, x)] := by
  have appended := put_append (x := x) other []
  rwa [List.append_nil] at appended

theorem put_keys (bindings : List (Value × β)) (datum : Datum) :
    datum ∈ (put bindings key x).map (fun e => e.1.data) ↔
      datum = key.data ∨ datum ∈ bindings.map fun e => e.1.data := by
  induction bindings with
  | nil => simp [put]
  | cons e rest ih =>
      rw [put]
      split
      · rename_i same
        simp [same]
      · rw [List.map_cons, List.map_cons, List.mem_cons, List.mem_cons, ih, or_left_comm]

theorem length_le_put (bindings : List (Value × β)) :
    bindings.length ≤ (put bindings key x).length := by
  induction bindings with
  | nil => exact Nat.zero_le _
  | cons e rest ih =>
      rw [put]
      split
      · exact Nat.le_refl _
      · exact Nat.succ_le_succ ih

theorem length_le_putAll (bindings written : List (Value × β)) :
    bindings.length ≤ (putAll bindings written).length := by
  induction written generalizing bindings with
  | nil => exact Nat.le_refl _
  | cons e written ih => exact Nat.le_trans (length_le_put bindings) (ih _)

end

section

variable {t u : Table} {key value : Value} {old : Option Value}

theorem insertAll_keys (tidy : t.Tidy) {done written : List (Value × Value)}
    (same : ∀ datum, datum ∈ t.keys ↔ datum ∈ done.map fun e => e.1.data)
    (made : t.insertAll written = .ok u) (datum : Datum) :
    datum ∈ u.keys ↔ datum ∈ (putAll done written).map fun e => e.1.data := by
  induction written generalizing t done with
  | nil =>
      cases made
      exact same datum
  | cons e written ih =>
      obtain ⟨old, next, inserted, rest⟩ := (insertAll_cons t u e.1 e.2 written).mp made
      refine ih (tidy.insert inserted).1 (fun datum => ?_) rest
      rw [tidy.insert_keys inserted, put_keys, same]

def Snug (t : Table) : Prop :=
  t.size ≤ max 2 (2 * t.count - 2)

theorem insert_snug (valid : t.Valid) (snug : t.Snug)
    (inserted : t.insert key value = .ok (old, u)) : u.Snug := by
  have counted := (valid.tidy.insert inserted).1.counted
  have before := valid.counted
  unfold Snug at snug ⊢
  rcases (valid.tidy.insert_cases inserted).2 with ⟨k, held, rest, _, size, shape, changed⟩ |
    ⟨_, size, added⟩
  · have lengths := changed.length_eq.trans shape.length_eq.symm
    omega
  · have longer := added.length_eq
    rw [List.length_cons] at longer
    have fits := valid.tidy.count_le_size
    by_cases full : t.size ≤ t.count
    · rw [size_grow t valid full] at size
      omega
    · rw [Table.grow, if_neg full] at size
      omega

section

variable {done : List (Value × Value)} (valid : t.Valid) (same : t.bindings.Perm done)

include valid same

theorem insert_puts (inserted : t.insert key value = .ok (old, u)) :
    u.bindings.Perm (put done key value) := by
  have distinct : (done.map fun e => e.1.data).Nodup :=
    (same.map fun e : Value × Value => e.1.data).nodup_iff.mp valid.distinct
  rcases (valid.tidy.insert_cases inserted).2 with ⟨k, before, rest, hit, _, shape, changed⟩ |
    ⟨missing, _, added⟩
  · obtain ⟨front, back, rfl⟩ :=
      List.append_of_mem (same.mem_iff.mp (shape.mem_iff.mpr List.mem_cons_self))
    rw [List.map_append, List.map_cons, List.nodup_append] at distinct
    have other (e : Value × Value) (member : e ∈ front) : e.1.data ≠ key.data := by
      rw [← hit]
      exact distinct.2.2 _ (List.mem_map_of_mem member) _ List.mem_cons_self
    have remaining : rest.Perm (front ++ back) :=
      ((shape.symm.trans same).trans List.perm_middle).cons_inv
    rw [put_append other, put, if_pos hit]
    exact (changed.trans (remaining.cons _)).trans List.perm_middle.symm
  · have absent : key.data ∉ t.keys := by
      intro held
      obtain ⟨_, _, _, _, _, _, _, located⟩ := locate_found t key.data valid held
      rw [missing] at located
      cases located
    rw [put_absent fun e member clash => absent (List.mem_map.mpr ⟨e, same.mem_iff.mpr member, clash⟩)]
    exact (added.trans (same.cons _)).trans (List.perm_append_singleton _ _).symm

theorem insertAll_puts (snug : t.Snug) {written : List (Value × Value)}
    (made : t.insertAll written = .ok u)
    (few : 2 * (putAll done written).length ≤ maxSlots + 1) :
    u.bindings.Perm (putAll done written) := by
  induction written generalizing t done with
  | nil =>
      cases made
      exact same
  | cons e written ih =>
      obtain ⟨old, next, inserted, rest⟩ := (insertAll_cons t u e.1 e.2 written).mp made
      have puts := insert_puts valid same inserted
      have snug := insert_snug valid snug inserted
      have counted := (valid.tidy.insert inserted).1.counted
      have lengths := puts.length_eq
      have fewer := length_le_putAll (put done e.1 e.2) written
      -- so few keys never make the table outgrow its links
      have small : next.size ≤ maxSlots := by
        unfold Snug at snug
        rw [putAll] at few
        unfold maxSlots at few ⊢
        omega
      have named : e.1.data ≠ .nil := fun nil => by
        rw [insert_nil t e.1 e.2 nil] at inserted
        cases inserted
      obtain ⟨made, again, after⟩ := insert_spec t e.1 e.2 valid named
      cases inserted.symm.trans again
      exact ih (after small).1 puts snug rest few

end

section

variable {written : List (Value × Value)} (made : ofList written = .ok t)

include made

theorem ofList_keys (datum : Datum) :
    datum ∈ t.keys ↔ datum ∈ (lastWritten written).map fun e => e.1.data :=
  insertAll_keys (tidy_sized 0) (fun _ => by simp [keys]) made datum

/-- With keys for half of the slots that links tell apart, it holds what was written last. -/
theorem ofList_bindings (few : 2 * (lastWritten written).length ≤ maxSlots + 1) :
    t.bindings.Perm (lastWritten written) :=
  insertAll_puts (sized_valid 0 (Nat.zero_le _)) (by simp) (Nat.zero_le _) made few

end

end

end StaticImage.Table
