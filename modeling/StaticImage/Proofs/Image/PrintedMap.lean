import StaticImage.Proofs.Image.Unfolding
import StaticImage.Proofs.Table.FiniteMap

/-!
Maps as they are printed. The printed entries are a hash table of their own: its size is the count
in front of them, and a host that hashes as this program does finds in it what the map held.
-/

namespace StaticImage

structure PrintedEntry where
  key : ConstantKey
  link : Int
  value : String
  deriving DecidableEq, Repr

def PrintedEntry.text (weak : Bool) (e : PrintedEntry) : String :=
  e.key.opening weak e.link ++ e.value ++ " \x7d,\n"

def printedMap (weak : Bool) (printed : List PrintedEntry) : String :=
  mapOpening printed.length ++ String.join (printed.map (PrintedEntry.text weak)) ++
    aggregateClosing

/-- What a host does to look up a key: from an entry on it follows the printed links up to the
entry of the key, or up to the end of the chain. -/
inductive Walk (printed : List PrintedEntry) (key : ConstantKey) :
    Nat → Option PrintedEntry → Prop where
  | found (index : Nat) (e : PrintedEntry) (here : printed[index]? = some e) (hit : e.key = key) :
      Walk printed key index (some e)
  | ended (index : Nat) (e : PrintedEntry) (here : printed[index]? = some e) (miss : e.key ≠ key)
      (last : e.link = -1) : Walk printed key index none
  | onward (index next : Nat) (e : PrintedEntry) (outcome : Option PrintedEntry)
      (here : printed[index]? = some e) (miss : e.key ≠ key) (link : e.link = next)
      (rest : Walk printed key next outcome) : Walk printed key index outcome

theorem Walk.unique {printed : List PrintedEntry} {key : ConstantKey} {index : Nat}
    {first second : Option PrintedEntry} (left : Walk printed key index first)
    (right : Walk printed key index second) : first = second := by
  induction left with
  | found index e here hit =>
      cases right with
      | found _ f there _ => exact here.symm.trans there
      | ended _ f there miss _ =>
          cases here.symm.trans there
          exact (miss hit).elim
      | onward _ _ f _ there miss _ _ =>
          cases here.symm.trans there
          exact (miss hit).elim
  | ended index e here miss last =>
      cases right with
      | found _ f there hit =>
          cases here.symm.trans there
          exact (miss hit).elim
      | ended _ _ _ _ _ => rfl
      | onward _ next f _ there _ link _ =>
          cases here.symm.trans there
          omega
  | onward index next e outcome here miss link rest ih =>
      cases right with
      | found _ f there hit =>
          cases here.symm.trans there
          exact (miss hit).elim
      | ended _ f there _ last =>
          cases here.symm.trans there
          omega
      | onward _ other f _ there _ other_link other_rest =>
          cases here.symm.trans there
          have same : other = next := by omega
          subst same
          exact ih other_rest

def Datum.IsPrintedKey (key : Datum) : Prop :=
  (∃ text, key = .string text) ∨ ∃ n, key = .int n

theorem Datum.constantKey_eq_iff (key other : Datum) (printable : key.IsPrintedKey) :
    other.constantKey = key.constantKey ↔ other = key := by
  rcases printable with ⟨text, rfl⟩ | ⟨n, rfl⟩ <;> cases other <;> simp [constantKey]

namespace Table

variable (t : Table) (printed : List PrintedEntry) (key : Datum)
  (entries : ∀ slot e, t.entryAt? slot = some e → ∃ p, printed[slot]? = some p ∧
    p.link = e.link ∧ (p.key = key.constantKey ↔ e.key.data = key))

include entries

theorem walk_found (steps slot found : Nat) (before last : Option Nat)
    (walked : t.follow key steps slot before = some (found, last)) :
    ∃ p, printed[found]? = some p ∧ Walk printed key.constantKey slot (some p) := by
  induction steps generalizing slot before with
  | zero => cases walked
  | succ steps ih =>
      unfold follow at walked
      split at walked
      · cases walked
      · rename_i e present
        obtain ⟨p, here, link, same⟩ := entries slot e present
        split at walked
        · rename_i hit
          cases walked
          exact ⟨p, here, .found _ p here (same.mpr hit)⟩
        · rename_i miss
          split at walked
          · cases walked
          · rename_i onward
            obtain ⟨q, there, rest⟩ := ih e.next.toNat (some slot) walked
            refine ⟨q, there, .onward _ _ p _ here (fun hit => miss (same.mp hit)) ?_ rest⟩
            rw [link, Entry.link, if_neg onward]

theorem walk_missing (rest : List Nat) (first : Nat) (linked : t.Linked (first :: rest))
    (small : ∀ slot ∈ first :: rest, slot < maxSlots)
    (absent : ∀ slot e, t.entryAt? slot = some e → e.key.data ≠ key) :
    Walk printed key.constantKey first none := by
  induction rest generalizing first with
  | nil =>
      obtain ⟨⟨e, present, ending⟩, _⟩ := linked
      obtain ⟨p, here, link, same⟩ := entries first e present
      have last : e.next = chainEnd := ending
      refine .ended first p here (fun hit => absent first e present (same.mp hit)) ?_
      simp [link, Entry.link, Entry.isLast, last]
  | cons second rest ih =>
      obtain ⟨⟨e, present, next⟩, tail⟩ := linked
      obtain ⟨p, here, link, same⟩ := entries first e present
      have bound : second < maxSlots := small second (by simp)
      refine .onward first second p none here (fun hit => absent first e present (same.mp hit)) ?_
        (ih second tail fun slot member => small slot (List.mem_cons_of_mem first member))
      have onward : ¬ e.isLast = true := by
        simpa [Entry.isLast, next] using linkTo_ne_chainEnd second rest bound
      rw [link, Entry.link, if_neg onward, next, linkTo_toNat second rest bound]

theorem walk_from_main (valid : t.Valid) (main : t.entryAt? (t.mainPosition key) ≠ none)  :
    Walk printed key.constantKey (t.mainPosition key)
      ((t.locate? key).bind fun place => printed[place.1]?) := by
  by_cases held : key ∈ t.keys
  · obtain ⟨front, slot, rest, e, _, _, _, located⟩ := locate_found t key valid held
    obtain ⟨p, here, walk⟩ := walk_found t printed key entries _ _ _ _ _ located
    simpa [located, here] using walk
  · rw [locate_missing t key valid held]
    obtain ⟨e, present⟩ := Option.ne_none_iff_exists'.mp main
    obtain ⟨front, rest, chain⟩ := valid.chain_through _ e present
    refine walk_missing t printed key entries rest _ (chain.linked.drop front _)
      (fun slot member => chain.small valid slot (List.mem_append_right front member)) ?_
    intro slot f there same
    exact held ((mem_keys_iff t key).mpr ⟨slot, f, there, same⟩)

end Table

namespace Heap

def printedEntry (h : Heap) (weak : Bool) (context : Option String) (nesting : Nat)
    (opened : List MapId) (e : Entry) : PrintedEntry :=
  { key := e.key.data.constantKey
    link := e.link
    value := String.ofList (Trace.spelling weak
      ((h.unfold nesting opened e.value).plan context e.key.data.constantKey.name?).trace) }

theorem spelling_map (h : Heap) (weak : Bool) (context key : Option String) (nesting : Nat)
    (opened : List MapId) (id : MapId) (entries : List Entry)
    (keys : ∀ e ∈ entries, (e.key.data.constantKey.plan e.link).trace.Complete) :
    Trace.spelling weak ((Constant.map id (entries.map fun e =>
        ⟨e.key.data.constantKey, e.link, fun _ => h.unfold nesting opened e.value⟩)).plan
          context key).trace =
      (printedMap weak (entries.map (h.printedEntry weak context nesting opened))).toList := by
  have each (e : Entry) (member : e ∈ entries) :
      Trace.spelling weak ((e.key.data.constantKey.plan e.link).trace ++
        ((h.unfold nesting opened e.value).plan context e.key.data.constantKey.name?).trace ++
        [.text " \x7d,\n"]) =
      ((h.printedEntry weak context nesting opened e).text weak).toList := by
    simp only [printedEntry, PrintedEntry.text, Trace.spelling_append, Trace.spelling_cons,
      Trace.spelling_nil, Step.spelling_text, String.toList_append, String.toList_ofList,
      List.append_assoc, List.append_nil, ConstantKey.spelling_plan weak _ _ (keys e member)]
  rw [Constant.trace_map, Constant.trace_bindingsPlan]
  simp only [Trace.spelling_append, Trace.spelling_cons, Trace.spelling_nil, Step.spelling_text,
    Step.spelling_compact, Step.spelling_openMap, Step.spelling_closeMap, List.length_map,
    Trace.spelling_flatMap, List.flatMap_map, printedMap, String.toList_append, String.toList_join,
    List.append_nil, List.nil_append]
  congr 2
  refine List.flatMap_congr fun e member => ?_
  rw [← each e member]
  simp only [Trace.spelling_append, Trace.spelling_cons, Trace.spelling_nil, Step.spelling_text,
    List.append_nil]

theorem compacted_entries_lead (h : Heap) (t : Table) (valid : t.Valid) (full : t.size = t.count)
    (weak : Bool) (context : Option String) (nesting : Nat) (opened : List MapId) (key : Datum)
    (printable : key.IsPrintedKey) :
    let printed := t.entries.map (h.printedEntry weak context nesting opened)
    match t.find? (.plain key) with
    | none => printed = [] ∨ Walk printed key.constantKey (key.hash.toNat % printed.length) none
    | some v => ∃ e, e.value = v ∧ e.key.data = key ∧ e ∈ t.entries ∧
        Walk printed key.constantKey (key.hash.toNat % printed.length)
          (some (h.printedEntry weak context nesting opened e)) := by
  intro printed
  have length : t.entries.length = t.size := by
    rw [full, valid.counted, Table.bindings, List.length_map]
  have slots (slot : Nat) : printed[slot]? =
      (t.entryAt? slot).map (h.printedEntry weak context nesting opened) := by
    rw [List.getElem?_map, Table.entries_getElem?_of_full t length]
  have start : key.hash.toNat % printed.length = t.mainPosition key := by
    rw [List.length_map, length, Table.mainPosition]
  rw [start]
  have entries (slot : Nat) (e : Entry) (present : t.entryAt? slot = some e) :
      ∃ p, printed[slot]? = some p ∧ p.link = e.link ∧
        (p.key = key.constantKey ↔ e.key.data = key) := by
    refine ⟨h.printedEntry weak context nesting opened e, by rw [slots, present]; rfl, rfl, ?_⟩
    exact Datum.constantKey_eq_iff key e.key.data printable
  by_cases none_left : t.size = 0
  · have empty : t.entries = [] := List.length_eq_zero_iff.mp (length.trans none_left)
    have missing : t.find? (.plain key) = none := by
      rw [Table.find?_eq_none_iff t _ valid]
      simp [Table.keys, Table.bindings, empty]
    rw [missing]
    exact Or.inl (by simp [printed, empty])
  · have main : t.entryAt? (t.mainPosition key) ≠ none := by
      have inside : t.mainPosition key < t.entries.length := by
        rw [length]
        exact Nat.mod_lt _ (Nat.pos_of_ne_zero none_left)
      rw [← Table.entries_getElem?_of_full t length, List.getElem?_eq_getElem inside]
      exact Option.some_ne_none _
    have walk := Table.walk_from_main t printed key entries valid main
    by_cases held : key ∈ t.keys
    · obtain ⟨front, slot, rest, e, _, present, same, located⟩ :=
        Table.locate_found t key valid held
      have found : t.find? (.plain key) = some e.value := by
        simp [Table.find?, Value.plain, located, present]
      rw [found]
      rw [located, Option.bind_some, slots, present] at walk
      exact ⟨e, rfl, same, (Table.mem_entries_iff t e).mpr ⟨slot, present⟩, walk⟩
    · have missing := (Table.find?_eq_none_iff t (.plain key) valid).mpr held
      rw [missing]
      rw [Table.locate_missing t key valid held] at walk
      exact Or.inr walk

/-- The bytes are a map in which the keys that the table holds, and no others, are found, with the
constants of their values. -/
def PrintsHashTable (h : Heap) (options : DumpOptions) (t : Table) (bytes : List UInt8) : Prop :=
  ∃ printed : List PrintedEntry,
    bytes = (printedMap options.weak printed).toUTF8.data.toList ∧
    ∀ k : Datum, k.IsPrintedKey →
      match t.find? (.plain k) with
      | none => printed = [] ∨ ∀ outcome,
          Walk printed k.constantKey (k.hash.toNat % printed.length) outcome ↔ outcome = none
      | some v => ∃ e,
          (∀ outcome, Walk printed k.constantKey (k.hash.toNat % printed.length) outcome ↔
            outcome = some e) ∧
          (h.express v options k.constantKey.name?).1.error = none ∧
          (h.express v options k.constantKey.name?).1.bytes = e.value.toUTF8.data.toList

/-- Whatever a dump was doing when it wrote a map, the printed entries are a hash table in which
the keys that the map held, and no others, lead to the constants of their values. -/
theorem printed_map_is_hash_table (h : Heap) (id : MapId) (isStatic : Bool) (t : Table)
    (history : List Table.Operation) (nesting : Nat) (opened : List MapId) (key : Option String)
    (options : DumpOptions) (room : Option Nat) (present : h.table? id = some t)
    (reached : Table.Reached history t) (within : nesting ≤ h.nesting)
    (success : (((h.unfold nesting opened ⟨.map id, isStatic⟩).plan options.context key).run
      options.weak room).error = none) :
    h.PrintsHashTable options t
      (((h.unfold nesting opened ⟨.map id, isStatic⟩).plan options.context key).run
        options.weak room).bytes := by
  obtain ⟨writable, bytes⟩ := Plan.run_complete _ _ _ success
  obtain ⟨inner, rfl, shape⟩ := unfold_map h nesting opened id isStatic t _ _ present writable
  rw [shape] at writable bytes ⊢
  have each (e : Entry) (member : e ∈ t.compact.entries) :=
    (Constant.writable_map _ _ _ _).mp writable _ (List.mem_map.mpr ⟨e, member, rfl⟩)
  obtain ⟨valid, _⟩ := reached.valid
  obtain ⟨compacted, full, _⟩ := Table.compact_spec t valid
  refine ⟨t.compact.entries.map (h.printedEntry options.weak options.context inner (id :: opened)),
    ?_, fun k printable => ?_⟩
  · rw [bytes, spelling_map h _ _ _ _ _ _ _ fun e member => (each e member).1,
      String.ofList_toList]
  · have lead := compacted_entries_lead h t.compact compacted full options.weak options.context
      inner (id :: opened) k printable
    rw [Table.find?_compact t _ valid] at lead
    cases held : t.find? (.plain k) with
    | none =>
        rw [held] at lead
        rcases lead with empty | walk
        · exact Or.inl empty
        · exact Or.inr fun outcome => ⟨fun other => other.unique walk, fun same => same ▸ walk⟩
    | some v =>
        rw [held] at lead
        obtain ⟨e, rfl, rfl, member, walk⟩ := lead
        refine ⟨_, fun outcome => ⟨fun other => other.unique walk, fun same => same ▸ walk⟩, ?_⟩
        have value := (each e member).2
        have alone : h.constant e.value = h.unfold inner (id :: opened) e.value :=
          h.unfold_more inner h.nesting (id :: opened) [] e.value _ _ (by omega)
            (List.nil_subset _) value
        have complete : ((h.constant e.value).plan options.context
            e.key.data.constantKey.name?).trace.Complete := by
          rw [alone]
          exact value
        have unbroken := Plan.run_unbounded options.weak _ complete
        refine ⟨unbroken, ?_⟩
        have written := (Plan.run_complete options.weak none _ unbroken).2
        rw [alone] at written
        rw [express, alone]
        exact written

def oneMap : Heap :=
  { empty with maps := #[Table.afterAll Table.crowded.tail] }

theorem one_map_is_hash_table :
    oneMap.table? ⟨0⟩ = some (Table.afterAll Table.crowded.tail) ∧
      Table.Reached Table.crowded.tail (Table.afterAll Table.crowded.tail) ∧
      oneMap.PrintsHashTable ⟨false, none⟩ (Table.afterAll Table.crowded.tail)
        (((oneMap.unfold oneMap.nesting [] ⟨.map ⟨0⟩, false⟩).plan none none).run
          false none).bytes := by
  have reached := Table.reached_afterAll Table.crowded.tail (by decide)
  have success := Plan.run_unbounded false
    ((oneMap.unfold oneMap.nesting [] ⟨.map ⟨0⟩, false⟩).plan none none) (by decide)
  exact ⟨rfl, reached, printed_map_is_hash_table oneMap ⟨0⟩ false _ _ oneMap.nesting [] none
    ⟨false, none⟩ none rfl reached (Nat.le_refl _) success⟩

end Heap

end StaticImage
