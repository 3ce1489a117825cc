import StaticImage.Proofs.Image.Spelling
import StaticImage.Proofs.Snapshot.Magnitudes

/-!
The integers that a snapshot can hold: all integers of its host but one. The digits of an integer
are read before its sign counts, and those of the least integer of the wide host are one too large.
-/

namespace StaticImage

/-- The integers of a host that snapshots can give: the digits of the least one are too large. -/
def Host.Writable (host : Host) (n : Int) : Prop :=
  host.fits n = true ∧ n ≠ -(1 <<< 63)

instance (host : Host) (n : Int) : Decidable (host.Writable n) :=
  inferInstanceAs (Decidable (_ ∧ _))

/-- The least integer of the wide host is the only one of a host whose digits are past the bound. -/
theorem Host.writable_iff {host : Host} {n : Int} :
    host.Writable n ↔ host.fits n = true ∧ n.natAbs < 1 <<< 63 := by
  have wide : Host.wide.limit = 1 <<< 63 := rfl
  have narrow : Host.narrow.limit = 1 <<< 31 := rfl
  simp only [Writable, Host.fits, Bool.and_eq_true, decide_eq_true_eq]
  cases host <;> omega

namespace Snapshot

open Load Lexeme

section

variable {s : Scope} {h : Heap} {n : Int} {span : Span}

theorem value_int :
    value s (.int n) span h =
      if s.host.fits n then .ok (.plain (.int n), h) else .error ⟨.outOfRange n "int", span⟩ := by
  change (hostIntOf s ⟨.int n, span⟩ h >>= fun (r : Int × Heap) =>
    Except.ok (Value.plain (.int r.1), r.2)) = _
  have read : hostIntOf s ⟨.int n, span⟩ h =
      if s.host.fits n then .ok (n, h) else .error ⟨.outOfRange n "int", span⟩ := by
    change (if s.host.fits n then pure n else fail (.outOfRange n "int") span : Load Int) h = _
    split <;> rfl
  rw [read]
  split <;> rfl

theorem int_of_form {e : Located Expr} (form : e.value.form = .int n) :
    e = ⟨.int n, e.span⟩ := by
  obtain ⟨e, span⟩ := e
  cases e with
  | int m =>
      cases form
      rfl
  | _ => cases form

theorem values_ints {es : List (Located Expr)} {ns : List Int}
    (forms : es.map (fun e => e.value.form) = ns.map Form.int) :
    ((∀ n ∈ ns, s.host.fits n = true) →
        values s es h = .ok (ns.map fun n => .plain (.int n), h)) ∧
      ((∃ n ∈ ns, s.host.fits n = false) → ∃ p, values s es h = .error p) := by
  induction ns generalizing es with
  | nil =>
      cases List.map_eq_nil_iff.mp forms
      exact ⟨fun _ => rfl, by simp⟩
  | cons n ns ih =>
      obtain ⟨e, rest, rfl, form, forms⟩ := List.map_eq_cons_iff.mp forms
      rw [int_of_form form]
      obtain ⟨good, bad⟩ := ih forms
      have step : values s (⟨.int n, e.span⟩ :: rest) h =
          (value s (.int n) e.span h >>= fun r => values s rest r.2 >>= fun q =>
            .ok (r.1 :: q.1, q.2)) := by
        rfl
      rw [step, value_int]
      refine ⟨fun fit => ?_, fun ⟨m, member, unfit⟩ => ?_⟩
      · rw [if_pos (fit n List.mem_cons_self)]
        change (values s rest h >>= _) = _
        rw [good fun m member => fit m (List.mem_cons_of_mem n member)]
        rfl
      · by_cases fits : s.host.fits n = true
        · rw [if_pos fits]
          have later : ∃ n ∈ ns, s.host.fits n = false := by
            rcases List.mem_cons.mp member with rfl | there
            · rw [fits] at unfit
              cases unfit
            · exact ⟨m, there, unfit⟩
          obtain ⟨p, failed⟩ := bad later
          refine ⟨p, ?_⟩
          change (values s rest h >>= _) = _
          rw [failed]
          rfl
        · rw [if_neg fits]
          exact ⟨_, rfl⟩

end

variable {host : Host} {n : Int}

theorem writable_of_loaded {text : String} {items : List Item} {loaded : Loaded} {span : Span}
    (parsed : parse text = .ok items) (lowered : lower host items = .ok loaded)
    (member : ⟨.int n, span⟩ ∈ evaluatedOf items) : host.Writable n := by
  have lowers := lower_lowers lowered
  have fits : host.fits n = true := by
    obtain ⟨visit, _, same, _, v, after, run, _⟩ := lowers.visits.evaluated member
    rw [same] at run
    change value (scopeOf host items) (.int n) span visit.heap = _ at run
    rw [value_int] at run
    split at run
    · rename_i fits
      exact fits
    · cases run
  obtain ⟨⟨i, what⟩, declared, evaluated⟩ := List.mem_flatMap.mp member
  have inside : i ∈ items := lowers.all ▸ List.mem_map_of_mem declared
  obtain ⟨f, given, contains⟩ := Item.contains_of_evaluated evaluated
  exact Host.writable_iff.mpr ⟨fits, small_of_parse parsed inside given contains⟩

theorem load_unfit {text : String} {items : List Item} {span : Span}
    (parsed : parse text = .ok items) (member : ⟨.int n, span⟩ ∈ evaluatedOf items)
    (unfit : host.fits n = false) : ∃ problems, load host text = .error (.items problems) := by
  rw [load_of_parsed parsed]
  cases lowered : lower host items with
  | error problems => exact ⟨problems, rfl⟩
  | ok loaded =>
      have writable := writable_of_loaded parsed lowered member
      rw [writable.1] at unfit
      cases unfit

theorem load_ints {name : String} (named : (Token.ident name).Lexical) {ns : List Int}
    {constants : Series Phrase} (integers : constants.elements = ns.map Phrase.int)
    (lead : List Filler) {rows : List Printed}
    (tokens : rows.map Prod.fst = (constantsPhrase name constants).tokens)
    (apart : rows.IsChain Apart) :
    ((∀ n ∈ ns, host.Writable n) →
        load host (String.ofList (layout lead rows)) =
          .ok ⟨constantsHeap name (ns.map fun n => .plain (.int n)) [],
            [(name, .plain (.closure ⟨0⟩))]⟩) ∧
      ((∃ n ∈ ns, ¬ host.Writable n) →
        ∃ e, load host (String.ofList (layout lead rows)) = .error e) := by
  have each {holds : Token → Prop} (lexical : ∀ t : Token, t.Lexical → holds t)
      (int : ∀ n ∈ ns, holds (.int n)) : ∀ row ∈ rows, holds row.1 := by
    intro row member
    refine forall_mem_constants lexical named (fun d listed t inside => ?_) row.1
      (tokens ▸ List.mem_map_of_mem member)
    rw [integers] at listed
    obtain ⟨n, there, rfl⟩ := List.mem_map.mp listed
    rw [Phrase.tokens, List.mem_singleton] at inside
    exact inside ▸ int n there
  -- only a text without integers that are too large is read at all
  by_cases small : ∀ n ∈ ns, n.natAbs < 1 <<< 63
  · obtain ⟨items, es, parsed, _, forms, loads⟩ := load_constants host lead tokens
      (each (fun _ lexical => lexical) fun n member => .int n (small n member)) apart
    rw [integers, List.map_map] at forms
    obtain ⟨good, bad⟩ := values_ints (s := constantsScope host name)
      (h := constantsHeap name [] []) forms
    rw [loads]
    constructor
    · intro all
      rw [good fun n member => (all n member).1, Except.map, Except.mapError,
        constantsHeap_modifyProto]
    · rintro ⟨n, member, unwritable⟩
      obtain ⟨p, failed⟩ := bad ⟨n, member, by
        rw [← Bool.not_eq_true]
        exact fun fits => unwritable (Host.writable_iff.mpr ⟨fits, small n member⟩)⟩
      rw [failed]
      exact ⟨_, rfl⟩
  · obtain ⟨n, member, large⟩ : ∃ n ∈ ns, 1 <<< 63 ≤ n.natAbs := by simpa using small
    refine ⟨fun all => ?_, fun _ => ?_⟩
    · have small := (Host.writable_iff.mp (all n member)).2
      omega
    · have token : .int n ∈ rows.map Prod.fst := by
        have listed : Phrase.int n ∈ constants.elements := integers ▸ List.mem_map_of_mem member
        rw [tokens, mem_constants]
        exact Or.inr (Series.mem_tokens listed (List.mem_singleton_self _))
      obtain ⟨row, there, same⟩ := List.mem_map.mp token
      obtain ⟨errors, loads⟩ := load_large host lead rows
        (each (fun _ => Or.inl) fun n _ => Or.inr ⟨n, rfl⟩) apart
        ⟨row, there, by rw [same]; exact decide_eq_true large⟩
      exact ⟨_, loads⟩

theorem exists_text_of_writable (writable : host.Writable n) :
    ∃ text items loaded span, parse text = .ok items ∧ load host text = .ok loaded ∧
      ⟨.int n, span⟩ ∈ evaluatedOf items := by
  have named : (Token.ident "c").Lexical := .word ['c'] (.intro 'c' [] rfl (by simp))
  have small := (Host.writable_iff.mp writable).2
  have tokens := map_spacedRows (constantsPhrase "c" (.last (.int n))).tokens
  have apart := apart_spacedRows (constantsPhrase "c" (.last (.int n))).tokens
  generalize spacedRows _ = rows at tokens apart
  have lexical (row : Printed) (member : row ∈ rows) : row.1.Lexical := by
    refine forall_mem_constants (fun _ lexical => lexical) named (fun d listed t inside => ?_) row.1
      (tokens ▸ List.mem_map_of_mem member)
    rw [List.mem_singleton.mp listed] at inside
    exact List.mem_singleton.mp inside ▸ .int n small
  obtain ⟨items, es, parsed, evaluated, forms, _⟩ :=
    load_constants host [] tokens lexical apart
  obtain ⟨e, rfl, form⟩ := List.map_eq_singleton_iff.mp forms
  have integers : (Series.last (Phrase.int n)).elements = [n].map Phrase.int := rfl
  have loads := (load_ints named integers [] tokens apart).1 (by simpa using writable)
  refine ⟨_, items, _, e.span, parsed, loads, ?_⟩
  rw [evaluated, int_of_form form]
  simp [itemsEvaluated, Expr.evaluated]

/-- An integer can be a constant of a snapshot exactly if it is one of the host other than the least
integer of the wide host. In any text that is parsed, what an integer comes to is that integer, or it
is out of range and the text does not load; a text with an integer that is too large is not even
parsed. A closure of integers that can all be written loads as just these, and each is printed as the
digits it was read from. -/
theorem integers_are_kept_but_the_least (host : Host) :
    (∀ n, (∃ text items loaded span, parse text = .ok items ∧ load host text = .ok loaded ∧
        ⟨.int n, span⟩ ∈ evaluatedOf items) ↔ host.Writable n) ∧
    (∀ n text items span, parse text = .ok items → ⟨.int n, span⟩ ∈ evaluatedOf items →
      if host.fits n then
        ∀ h, valueOf (scopeOf host items) ⟨.int n, span⟩ h = .ok (.plain (.int n), h)
      else ∃ problems, load host text = .error (.items problems)) ∧
    (∀ n lead (rows : List Printed), (∀ row ∈ rows, row.1.Shown) → rows.IsChain Apart →
      .int n ∈ rows.map Prod.fst → 1 <<< 63 ≤ n.natAbs →
        ∃ errors, load host (String.ofList (layout lead rows)) = .error (.text errors)) ∧
    (∀ name (ns : List Int) constants lead (rows : List Printed), (Token.ident name).Lexical →
      constants.elements = ns.map Phrase.int →
      rows.map Prod.fst = (constantsPhrase name constants).tokens → rows.IsChain Apart →
        ((∀ n ∈ ns, host.Writable n) →
          load host (String.ofList (layout lead rows)) =
            .ok ⟨constantsHeap name (ns.map fun n => .plain (.int n)) [],
              [(name, .plain (.closure ⟨0⟩))]⟩) ∧
        ((∃ n ∈ ns, ¬ host.Writable n) →
          ∃ e, load host (String.ofList (layout lead rows)) = .error e)) ∧
    ∀ n (h : Heap) isStatic options key,
      (h.express ⟨.int n, isStatic⟩ options key).1.error = none ∧
        (h.express ⟨.int n, isStatic⟩ options key).1.bytes =
          ("be_const_int(" ++ toString n ++ ")").toUTF8.data.toList := by
  refine ⟨fun n => ⟨?_, fun writable => ?_⟩, fun n text items span parsed member => ?_,
    fun n lead rows shown apart member large => ?_,
    fun name ns constants lead rows named integers tokens apart => ?_,
    fun n h isStatic options key => ?_⟩
  · rintro ⟨text, items, loaded, span, parsed, loads, member⟩
    obtain ⟨items, again, lowered⟩ := (load_eq_ok_iff host text loaded).mp loads
    cases parsed.symm.trans again
    exact writable_of_loaded parsed lowered member
  · exact exists_text_of_writable writable
  · split
    · rename_i fits
      intro h
      exact value_int.trans (if_pos fits)
    · rename_i unfit
      exact load_unfit parsed member (Bool.not_eq_true _ ▸ unfit)
  · obtain ⟨row, there, same⟩ := List.mem_map.mp member
    exact load_large host lead rows shown apart
      ⟨row, there, by rw [same]; exact decide_eq_true large⟩
  · exact load_ints named integers lead tokens apart
  · exact Heap.express_text rfl

/-- The least integer of the wide host, which its snapshots cannot give. -/
theorem least_integer_is_refused :
    Host.wide.fits (-9223372036854775808) = true ∧
      ∀ loaded, load .wide "closure c \x7b consts: [-9223372036854775808] \x7d" ≠ .ok loaded := by
  have refused :
      (load .wide "closure c \x7b consts: [-9223372036854775808] \x7d").toOption.isNone = true := by
    decide +kernel
  refine ⟨by decide, fun loaded loads => ?_⟩
  rw [loads] at refused
  cases refused

def pair (low high : Int) : Series Phrase :=
  .more (.int low) (.last (.int high))

def pairRows (low high : Int) : List Printed :=
  snugRows "c" [.int low, .comma, .int high]

theorem ends_of_narrow_are_kept :
    (∃ text items loaded span, parse text = .ok items ∧ load .narrow text = .ok loaded ∧
      ⟨.int (-2147483648), span⟩ ∈ evaluatedOf items) ∧
    (∃ problems,
      load .narrow "closure c \x7bconsts: [2147483648]\x7d" = .error (.items problems)) ∧
    (∃ errors, load .narrow (String.ofList (layout [] (pairRows 0 9223372036854775808))) =
      .error (.text errors)) ∧
    load .narrow (String.ofList (layout [] (pairRows (-2147483648) 2147483647))) =
      .ok ⟨constantsHeap "c" [.plain (.int (-2147483648)), .plain (.int 2147483647)] [],
        [("c", .plain (.closure ⟨0⟩))]⟩ ∧
    (Heap.empty.express (.plain (.int (-2147483648))) ⟨false, none⟩ none).1.bytes =
      "be_const_int(-2147483648)".toUTF8.data.toList := by
  obtain ⟨given, evaluated, large, closures, written⟩ := integers_are_kept_but_the_least .narrow
  have named : (Token.ident "c").Lexical := .word ['c'] (.intro 'c' [] rfl (by simp))
  have apart (low high : Int) : (pairRows low high).IsChain Apart := by
    simp [pairRows, snugRows, Apart, isClosed]
  have shown (low high : Int) : ∀ row ∈ pairRows low high, row.1.Shown := by
    have each : ∀ t ∈ (constantsPhrase "c" (pair low high)).tokens, t.Shown := by
      refine forall_mem_constants (fun _ => Or.inl) named fun d listed t inside => ?_
      simp only [pair, Series.elements, List.mem_cons, List.not_mem_nil, or_false] at listed
      rcases listed with rfl | rfl
      · exact Or.inr ⟨low, List.mem_singleton.mp inside⟩
      · exact Or.inr ⟨high, List.mem_singleton.mp inside⟩
    exact fun row member => each row.1 (List.mem_map_of_mem member)
  refine ⟨(given _).mpr (by decide), ?_, ?_, ?_, (written _ _ _ _ _).2⟩
  · have found : (parse "closure c \x7bconsts: [2147483648]\x7d").toOption.any fun items =>
        (evaluatedOf items).any fun e => e.value.form == Form.int 2147483648 := by
      decide +kernel
    obtain ⟨items, parsed, found⟩ := exists_ok_of_any found
    obtain ⟨e, member, same⟩ := List.any_eq_true.mp found
    rw [int_of_form (beq_iff_eq.mp same)] at member
    exact evaluated _ _ items _ parsed member
  · exact large 9223372036854775808 [] _ (shown _ _) (apart _ _) (by simp [pairRows, snugRows])
      (by decide)
  · exact (closures "c" [-2147483648, 2147483647] (pair _ _) [] _ named rfl rfl (apart _ _)).1
      (by decide)

end Snapshot

end StaticImage
