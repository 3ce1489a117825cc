import StaticImage.Proofs.Snapshot.Content
import StaticImage.Proofs.Snapshot.Integers
import StaticImage.Proofs.Table.Crowding

/-!
What literals build. The value of an expression is what the expression says, except that keys that
differ in their static flag alone are one key of a map, and that a map with more keys than links can
lead to may lose one and take it a second time.
-/

namespace StaticImage.Snapshot

open Load

/-- Everything that was there is as it was, and only lists, maps and instances are new. -/
structure Appends (h h' : Heap) : Prop where
  has : ∀ o, h.Has o → h'.Has o
  same : ∀ o, h.Has o → Heap.SameAt h h' o
  new : ∀ o, h'.Has o → h.Has o ∨ o.isAggregate = true
  builtins : h'.builtins = h.builtins

theorem Appends.of_grows {h h' : Heap} {order : List ObjectId} (grows : h.Grows order h') :
    Appends h h' where
  has := grows.changes.has
  same o has := grows.changes.same o has (by simp)
  new o has := by
    cases kind : o.isAggregate with
    | true => exact Or.inr rfl
    | false => exact Or.inl (grows.old o has kind)
  builtins := grows.builtins

theorem Represents.resolves {s : Scope} {items : List Item} {loaded : Loaded}
    (represents : Represents s items loaded) : s.Resolves loaded.item? :=
  fun name d v declared value => (represents.item?_iff name v).mpr ⟨d, declared, value⟩

section

variable {s : Scope} {h : Heap} {entries : List (Int × Int)} {t u : Table}

def intBindings (entries : List (Int × Int)) : List (Value × Value) :=
  entries.map fun e => (.plain (.int e.1), .plain (.int e.2))

theorem bindings_ints {es : List (Located Expr × Located Expr)}
    (forms : es.map (fun e => (e.1.value.form, e.2.value.form)) =
      entries.map fun e => (.int e.1, .int e.2))
    (fit : ∀ e ∈ entries, s.host.fits e.1 = true ∧ s.host.fits e.2 = true)
    (made : t.insertAll (intBindings entries) = .ok u) : bindings s t es h = .ok (u, h) := by
  induction entries generalizing es t with
  | nil =>
      cases List.map_eq_nil_iff.mp forms
      cases made
      rfl
  | cons e entries ih =>
      obtain ⟨⟨⟨key, at_key⟩, ⟨item, at_item⟩⟩, rest, rfl, form, forms_rest⟩ :=
        List.map_eq_cons_iff.mp forms
      obtain ⟨key_form, item_form⟩ := Prod.mk.inj form
      cases int_of_form key_form
      cases int_of_form item_form
      obtain ⟨old, next, inserted, others⟩ := (Table.insertAll_cons t u _ _ _).mp made
      obtain ⟨key_fits, item_fits⟩ := fit e List.mem_cons_self
      have onward := ih forms_rest (fun f member => fit f (List.mem_cons_of_mem e member)) others
      have bound : Snapshot.bind t (.plain (.int e.1)) (.plain (.int e.2)) at_key h =
          .ok (next, h) := by
        rw [Snapshot.bind, inserted]
        rfl
      have key_made : value s (.int e.1) at_key h = .ok (.plain (.int e.1), h) :=
        value_int.trans (if_pos key_fits)
      have item_made : value s (.int e.2) at_item h = .ok (.plain (.int e.2), h) :=
        value_int.trans (if_pos item_fits)
      have step : bindings s t ((⟨.int e.1, at_key⟩, ⟨.int e.2, at_item⟩) :: rest) h =
          (value s (.int e.1) at_key h >>= fun r => value s (.int e.2) at_item r.2 >>= fun q =>
            Snapshot.bind t r.1 q.1 at_key q.2 >>= fun b => bindings s b.1 rest b.2) := rfl
      rw [step, key_made]
      simp only [Bind.bind, Except.bind, item_made, bound]
      exact onward

def intMapPhrase (entries : List (Int × Int)) : Phrase :=
  .map (.ofList (entries.map fun e => (.int e.1, .int e.2)))

theorem lexical_intMapPhrase
    (small : ∀ e ∈ entries, e.1.natAbs < 1 <<< 63 ∧ e.2.natAbs < 1 <<< 63) :
    ∀ t ∈ (intMapPhrase entries).tokens, t.Lexical := by
  intro t inside
  rw [intMapPhrase, Phrase.tokens, Phrase.entryTokens_eq] at inside
  simp only [List.cons_append, List.mem_cons, List.mem_append, List.not_mem_nil, or_false] at inside
  rcases inside with rfl | inside | rfl
  · exact .mark _ (by decide)
  · rcases Series.mem_of_mem_tokens inside with rfl | ⟨entry, listed, inside⟩
    · exact .mark _ (by decide)
    · rw [Series.elements_ofList] at listed
      obtain ⟨e, member, rfl⟩ := List.mem_map.mp listed
      simp only [Phrase.entryWord, Phrase.tokens, List.cons_append, List.nil_append, List.mem_cons,
        List.not_mem_nil, or_false] at inside
      rcases inside with rfl | rfl | rfl
      · exact .int _ (small e member).1
      · exact .mark _ (by decide)
      · exact .int _ (small e member).2
  · exact .mark _ (by decide)

theorem elements_of_intMap {e : Expr} (form : e.form = (intMapPhrase entries).form) :
    ∃ elements, e = .map elements ∧
      elements.map (fun e => (e.1.value.form, e.2.value.form)) =
        entries.map fun e => (.int e.1, .int e.2) := by
  rw [intMapPhrase, Phrase.form, Phrase.entryForms_eq, Series.elements_ofList, List.map_map] at form
  cases e with
  | map elements =>
      rw [Expr.form, entryFormsOf_eq_map] at form
      exact ⟨elements, rfl, Form.map.inj form⟩
  | _ => simp [Expr.form] at form

theorem value_intMap {e : Expr} {span : Span} (form : e.form = (intMapPhrase entries).form)
    (fit : ∀ e ∈ entries, s.host.fits e.1 = true ∧ s.host.fits e.2 = true)
    (made : Table.empty.insertAll (intBindings entries) = .ok t) :
    value s e span h = newMap t h := by
  obtain ⟨elements, rfl, same⟩ := elements_of_intMap form
  change (bindings s .empty elements h >>= fun r => newMap r.1 r.2) = _
  rw [bindings_ints same fit made]
  rfl

def intMapText (entries : List (Int × Int)) : String :=
  String.ofList (layout [] (spacedRows (constantsPhrase "c" (.last (intMapPhrase entries))).tokens))

theorem load_intMap (host : Host) (writable : ∀ e ∈ entries, host.Writable e.1 ∧ host.Writable e.2)
    (made : Table.empty.insertAll (intBindings entries) = .ok t) :
    ∃ loaded, load host (intMapText entries) = .ok loaded ∧ loaded.heap.table? ⟨0⟩ = some t := by
  have named : (Token.ident "c").Lexical := .word ['c'] (.intro 'c' [] rfl (by simp))
  have tokens := map_spacedRows (constantsPhrase "c" (.last (intMapPhrase entries))).tokens
  have lexical : ∀ row ∈ spacedRows (constantsPhrase "c" (.last (intMapPhrase entries))).tokens,
      row.1.Lexical := by
    intro row member
    refine forall_mem_constants (fun _ lexical => lexical) named (fun d listed t inside => ?_) row.1
      (tokens ▸ List.mem_map_of_mem member)
    rw [List.mem_singleton.mp listed] at inside
    exact lexical_intMapPhrase (fun e member => ⟨(Host.writable_iff.mp (writable e member).1).2,
      (Host.writable_iff.mp (writable e member).2).2⟩) t inside
  obtain ⟨items, es, parsed, _, forms, loads⟩ :=
    load_constants host [] tokens lexical (apart_spacedRows _)
  obtain ⟨⟨e, span⟩, rfl, form⟩ := List.map_eq_singleton_iff.mp forms
  have literal : value (constantsScope host "c") e span (constantsHeap "c" [] []) =
      newMap t (constantsHeap "c" [] []) :=
    value_intMap form (fun e member => ⟨(writable e member).1.1, (writable e member).2.1⟩) made
  have evaluated : values (constantsScope host "c") [⟨e, span⟩] (constantsHeap "c" [] []) =
      (value (constantsScope host "c") e span (constantsHeap "c" [] []) >>= fun r =>
        .ok ([r.1], r.2)) := rfl
  rw [intMapText, loads, evaluated, literal]
  exact ⟨_, rfl, rfl⟩

end

/-- Each expression of a snapshot that is evaluated comes to a value, for which nothing that is there
already changes and only lists, maps and instances are added. If keys in it are plain, its value is in
the loaded heap what it says: maps have the keys that are written, and with at most 8388608 of them
each key has what is written last. -/
theorem expressions_build_what_they_say (host : Host) (text : String) (loaded : Loaded)
    (loads : load host text = .ok loaded) :
    ∃ items, parse text = .ok items ∧
      (visitsOf host items).map Visit.expression = evaluatedOf items ∧
      ∀ visit ∈ visitsOf host items, ∃ v after,
        valueOf (scopeOf host items) visit.expression visit.heap = .ok (v, after) ∧
          Appends visit.heap after ∧
          (visit.expression.value.form.plainKeys = true →
            ∃ c, visit.expression.value.form.denotes? host loaded.item? = some c ∧
              c.Unfolds (fun t bindings =>
                (∀ datum, datum ∈ t.keys ↔ datum ∈ bindings.map fun e => e.1.data) ∧
                  (bindings.length ≤ 8388608 → t.bindings.Perm bindings)) loaded.heap v) := by
  obtain ⟨items, parsed, lowered⟩ := (load_eq_ok_iff host text loaded).mp loads
  have lowers := lower_lowers lowered
  have follows := lowers.visits
  refine ⟨items, parsed, follows.all, fun visit member => ?_⟩
  obtain ⟨known, v, after, run, keeps⟩ := follows.settled visit member
  obtain ⟨order, grows, means⟩ := value_ok _ _ v visit.heap after known run
  refine ⟨v, after, run, .of_grows grows, fun plain => ?_⟩
  refine Scope.Means.denotes (fun t written made => ?_) lowers.represents.resolves _ v
    (means.mono keeps.retains _ v) plain
  refine ⟨Table.ofList_keys made, fun few => Table.ofList_bindings made ?_⟩
  exact Nat.mul_le_mul_left 2 few

def literalsText : String :=
  "class A \x7bmembers: \x7ba: 1, b: map_instance(\x7bk: [A]\x7d), " ++
  "\"a\": static([bytes(\"0f\")])\x7d\x7d"

theorem nested_literals_are_built :
    ∃ items loaded, parse literalsText = .ok items ∧ load .wide literalsText = .ok loaded ∧
      (visitsOf .wide items).map Visit.expression = evaluatedOf items ∧
      (evaluatedOf items).length = 10 ∧
      ∀ visit ∈ visitsOf .wide items, ∃ v after c,
        valueOf (scopeOf .wide items) visit.expression visit.heap = .ok (v, after) ∧
          Appends visit.heap after ∧
          visit.expression.value.form.denotes? .wide loaded.item? = some c ∧
          c.Unfolds (fun t bindings =>
            (∀ datum, datum ∈ t.keys ↔ datum ∈ bindings.map fun e => e.1.data) ∧
              (bindings.length ≤ 8388608 → t.bindings.Perm bindings)) loaded.heap v := by
  have checked : (parse literalsText).toOption.any fun items =>
      (lower .wide items).toOption.any fun _ =>
        (evaluatedOf items).length == 10 &&
          (evaluatedOf items).all fun e => e.value.form.plainKeys := by
    decide +kernel
  obtain ⟨items, parsed, checked⟩ := exists_ok_of_any checked
  obtain ⟨loaded, lowered, checked⟩ := exists_ok_of_any checked
  obtain ⟨count, plain⟩ := Bool.and_eq_true_iff.mp checked
  have loads := (load_eq_ok_iff .wide literalsText loaded).mpr ⟨items, parsed, lowered⟩
  obtain ⟨items', again, all, built⟩ :=
    expressions_build_what_they_say .wide literalsText loaded loads
  cases parsed.symm.trans again
  refine ⟨items, loaded, again, loads, all, beq_iff_eq.mp count, fun visit member => ?_⟩
  obtain ⟨v, after, run, appends, denotes⟩ := built visit member
  have inside : visit.expression ∈ evaluatedOf items := all ▸ List.mem_map_of_mem member
  obtain ⟨c, denoted, unfolds⟩ := denotes (List.all_eq_true.mp plain visit.expression inside)
  exact ⟨v, after, c, run, appends, denoted, unfolds⟩

/-- So many integers from zero on, and then one of the bucket of zero that is written twice. -/
def crowded (count : Nat) : List (Int × Int) :=
  (List.range count).map (fun (n : Nat) => ((n : Int), 0)) ++ [(4294967296, 1), (4294967296, 2)]

theorem writable_crowded (count : Nat) (few : count ≤ 2 ^ 32) :
    ∀ e ∈ crowded count, Host.wide.Writable e.1 ∧ Host.wide.Writable e.2 := by
  intro e member
  rcases List.mem_append.mp member with inside | last
  · obtain ⟨n, below, rfl⟩ := List.mem_map.mp inside
    have small := List.mem_range.mp below
    have wide : Host.wide.limit = 1 <<< 63 := rfl
    refine ⟨Host.writable_iff.mpr ?_, (by decide : Host.wide.Writable 0)⟩
    simp only [Host.fits, Bool.and_eq_true, decide_eq_true_eq, wide]
    omega
  · simp only [List.mem_cons, List.not_mem_nil, or_false] at last
    rcases last with rfl | rfl <;> decide

/-- A key that is written with the flag and without it is there once, and a key for which links run out
is there twice. -/
theorem flag_is_dropped_and_key_doubled :
    (∃ loaded t, load .wide "closure c \x7bconsts: [\x7b1: 2, static(1): 3\x7d]\x7d" = .ok loaded ∧
      loaded.heap.table? ⟨0⟩ = some t ∧
      t.bindings = [(.plain (.int 1), .plain (.int 3))]) ∧
    ∃ loaded t, load .wide (intMapText (crowded 8388608)) = .ok loaded ∧
      loaded.heap.table? ⟨0⟩ = some t ∧
      (.plain (.int 4294967296), .plain (.int 1)) ∈ t.bindings ∧
      (.plain (.int 4294967296), .plain (.int 2)) ∈ t.bindings := by
  constructor
  · have checked : (load .wide "closure c \x7bconsts: [\x7b1: 2, static(1): 3\x7d]\x7d").toOption.any
        fun loaded => (loaded.heap.table? ⟨0⟩).any fun t =>
          t.bindings = [(.plain (.int 1), .plain (.int 3))] := by
      decide +kernel
    obtain ⟨loaded, loads, checked⟩ := exists_ok_of_any checked
    obtain ⟨t, present, same⟩ := (Option.any_eq_true _ _).mp checked
    exact ⟨loaded, t, loads, present, of_decide_eq_true same⟩
  · obtain ⟨t, made, first, second⟩ :=
      Table.key_is_doubled (.plain (.int 0)) (.plain (.int 1)) (.plain (.int 2))
    have written : Table.row (.plain (.int 0)) 8388608 ++
        [(Table.multiple 1, .plain (.int 1)), (Table.multiple 1, .plain (.int 2))] =
          intBindings (crowded 8388608) := by
      rw [intBindings, crowded, List.map_append, List.map_map]
      rfl
    rw [written] at made
    obtain ⟨loaded, loads, present⟩ := load_intMap .wide (writable_crowded 8388608 (by decide)) made
    exact ⟨loaded, t, loads, present, first, second⟩

end StaticImage.Snapshot
