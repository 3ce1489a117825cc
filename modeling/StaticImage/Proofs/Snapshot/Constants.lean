import StaticImage.Proofs.Snapshot.Accepting
import StaticImage.Proofs.Snapshot.Building
import StaticImage.Proofs.Snapshot.Lexing
import StaticImage.Proofs.Snapshot.Reporting

namespace StaticImage.Snapshot

open Load

def constantsPhrase (name : String) (constants : Series Phrase) : ItemPhrase :=
  ⟨"closure", some name, .last ⟨"consts", .list constants⟩⟩

def constantsScope (host : Host) (name : String) : Scope :=
  ⟨host, [(name, .closure ⟨0⟩ (some ⟨0⟩))]⟩

def constantsHeap (name : String) (consts : List Value) (instances : List InstanceObject) : Heap :=
  { Heap.empty with
    protos := #[{ Prototype.named name with consts := consts }]
    closures := #[⟨⟨0⟩, []⟩]
    instances := instances.toArray }

theorem constantsHeap_modifyProto (name : String) (vs : List Value)
    (instances : List InstanceObject) :
    ((constantsHeap name [] instances).modifyProto ⟨0⟩ fun p => { p with consts := vs }) =
      constantsHeap name vs instances := by
  simp [constantsHeap, Heap.modifyProto, Prototype.named]

theorem itemName_of_unshown {i : Item} {n : Located String} (named : i.name = some n)
    (unshown : i.field? "name" = none) : itemName i = .ok (n.value, n.span, n.value) := by
  rw [itemName, unshown, named]
  rfl

section

variable {i : Item} {n : Located String} {f : Field}

theorem declareAll_closure (kind : i.kind.value = "closure") (named : i.name = some n)
    (fields : i.fields = [f]) (field : f.name.value = "consts") :
    declareAll ⟨.empty, []⟩ [i] =
      ([], [(i, some (.closure ⟨0⟩ (some ⟨0⟩)))],
        ⟨constantsHeap n.value [] [], [(n.value, .closure ⟨0⟩ (some ⟨0⟩))]⟩) := by
  have found : itemKind i = .ok .closure := by
    rw [itemKind, kind]
    rfl
  have missing (other : String) (apart : other ≠ "consts") : i.field? other = none := by
    rw [Item.field?, fields, List.find?_singleton, field]
    simp [apart.symm]
  have title := itemName_of_unshown named (missing "name" (by decide))
  have declared : declare ⟨.empty, []⟩ i =
      .ok (some (.closure ⟨0⟩ (some ⟨0⟩)),
        ⟨constantsHeap n.value [] [], [(n.value, .closure ⟨0⟩ (some ⟨0⟩))]⟩) := by
    rw [declare, found]
    dsimp only [Bind.bind, Except.bind]
    rw [title]
    dsimp only
    rw [allocate, missing "proto" (by decide)]
    rfl
  rw [declareAll, declared]
  rfl

theorem define_closure {s : Scope} {h : Heap} {es : List (Located Expr)}
    (fields : i.fields = [f]) (field : f.name.value = "consts") (list : f.value.value = .list es) :
    define s i (some (.closure ⟨0⟩ (some ⟨0⟩))) h =
      (values s es h).map fun r => ((), r.2.modifyProto ⟨0⟩ fun p => { p with consts := r.1 }) := by
  have effect : field? s f (some (.closure ⟨0⟩ (some ⟨0⟩))) =
      some (valuesOf s f.value >>= fun vs =>
        setProto ⟨0⟩ fun p => { p with consts := vs }) := by
    simp [field?, closureField?, protoField?, field]
  have elements : valuesOf s f.value = values s es := by
    rw [valuesOf, listOf, list]
    rfl
  have single : duplicate? [] [f] = none := rfl
  rw [define, fields, single]
  dsimp only [List.forM]
  rw [effect, elements]
  change ((values s es h >>= _) >>= _) = _
  cases values s es h <;> rfl

theorem lower_constants {host : Host} {es : List (Located Expr)} (kind : i.kind.value = "closure")
    (named : i.name = some n) (fields : i.fields = [f]) (field : f.name.value = "consts")
    (list : f.value.value = .list es) :
    lower host [i] =
      ((values (constantsScope host n.value) es (constantsHeap n.value [] [])).map fun r =>
        ⟨r.2.modifyProto ⟨0⟩ fun p => { p with consts := r.1 },
          [(n.value, .plain (.closure ⟨0⟩))]⟩).mapError fun p => [p] := by
  rw [lower, declareAll_closure kind named fields field]
  dsimp only
  rw [defineAll, define_closure fields field list, ← constantsScope]
  cases values (constantsScope host n.value) es (constantsHeap n.value [] []) <;> rfl

end

/-- A text that is laid out as a closure with constants loads exactly if these can be evaluated, and
nothing else is evaluated for it. -/
theorem load_constants (host : Host) {name : String} {constants : Series Phrase}
    (lead : List Filler) {rows : List Printed}
    (tokens : rows.map Prod.fst = (constantsPhrase name constants).tokens)
    (lexical : ∀ row ∈ rows, row.1.Lexical) (apart : rows.IsChain Lexeme.Apart) :
    ∃ items es, parse (String.ofList (layout lead rows)) = .ok items ∧
      evaluatedOf items = itemsEvaluated es ∧
      es.map (fun e => e.value.form) = constants.elements.map Phrase.form ∧
      load host (String.ofList (layout lead rows)) =
        ((values (constantsScope host name) es (constantsHeap name [] [])).map fun r =>
          ⟨r.2.modifyProto ⟨0⟩ fun p => { p with consts := r.1 },
            [(name, .plain (.closure ⟨0⟩))]⟩).mapError fun p => .items [p] := by
  have lexed := lex_of_lexical lead rows lexical apart
  have derived : [constantsPhrase name constants].flatMap ItemPhrase.tokens =
      (placed (fillerText lead).length rows).map Prod.fst := by
    rw [map_placed, tokens, List.flatMap_singleton]
  obtain ⟨items, parsed, forms⟩ := parse_of_derived lexed derived
  obtain ⟨⟨kind, n?, fields, span⟩, rfl, form⟩ := List.map_eq_singleton_iff.mp forms
  obtain ⟨kinds, named, given⟩ := ItemForm.mk.inj form
  obtain ⟨n, rfl, rfl⟩ := Option.map_eq_some_iff.mp named
  obtain ⟨⟨title, e⟩, rfl, same⟩ := List.map_eq_singleton_iff.mp given
  obtain ⟨titled, listed⟩ := Prod.mk.inj same
  change e.value.form = (Phrase.list constants).form at listed
  rw [Phrase.form, Phrase.itemForms_eq] at listed
  obtain ⟨es, list, elements⟩ : ∃ es, e.value = .list es ∧
      es.map (fun e => e.value.form) = constants.elements.map Phrase.form := by
    cases shape : e.value with
    | list es =>
        rw [shape, Expr.form, formsOf_eq_map] at listed
        exact ⟨es, rfl, Form.list.inj listed⟩
    | _ => simp [shape, Expr.form] at listed
  refine ⟨_, es, parsed, ?_, elements, ?_⟩
  · have valued : Field.valued ⟨title, e⟩ (some (.closure ⟨0⟩ (some ⟨0⟩))) = es := by
      refine (if_pos (Or.inl titled)).trans ?_
      rw [list]
      rfl
    rw [evaluatedOf, declaredOf, declareAll_closure kinds rfl rfl titled, List.flatMap_singleton]
    dsimp only [Item.evaluated]
    rw [List.flatMap_singleton, valued]
  · rw [load_of_parsed parsed, lower_constants kinds rfl rfl titled list]
    cases values (constantsScope host n.value) es (constantsHeap n.value [] []) <;> rfl

theorem mem_constants {t : Token} {name : String} {constants : Series Phrase} :
    t ∈ (constantsPhrase name constants).tokens ↔
      t ∈ [.ident "closure", .ident name, .openBrace, .ident "consts", .colon, .openBracket,
        .closeBracket, .closeBrace] ∨ t ∈ constants.tokens Phrase.tokens := by
  simp only [constantsPhrase, ItemPhrase.tokens, Series.tokens, FieldPhrase.tokens, Phrase.tokens,
    Phrase.itemTokens_eq, Option.toList, List.map_cons, List.map_nil, List.cons_append,
    List.nil_append, List.append_assoc, List.mem_cons, List.mem_append, List.not_mem_nil,
    or_false]
  tauto

theorem forall_mem_constants {holds : Token → Prop} (lexical : ∀ t : Token, t.Lexical → holds t)
    {name : String} (named : (Token.ident name).Lexical) {constants : Series Phrase}
    (each : ∀ d ∈ constants.elements, ∀ t ∈ d.tokens, holds t) :
    ∀ t ∈ (constantsPhrase name constants).tokens, holds t := by
  have kind : (Token.ident "closure").Lexical :=
    .word "closure".toList (.intro 'c' "losure".toList rfl (List.all_eq_true.mp rfl))
  have field : (Token.ident "consts").Lexical :=
    .word "consts".toList (.intro 'c' "onsts".toList rfl (List.all_eq_true.mp rfl))
  intro t member
  rcases mem_constants.mp member with frame | inside
  · refine lexical t ?_
    simp only [List.mem_cons, List.not_mem_nil, or_false] at frame
    rcases frame with rfl | rfl | rfl | rfl | rfl | rfl | rfl | rfl
    · exact kind
    · exact named
    · exact .mark _ (by decide)
    · exact field
    · exact .mark _ (by decide)
    · exact .mark _ (by decide)
    · exact .mark _ (by decide)
    · exact .mark _ (by decide)
  · rcases Series.mem_of_mem_tokens inside with rfl | ⟨d, listed, inside⟩
    · exact lexical _ (.mark _ (by decide))
    · exact each d listed t inside

def snugRows (name : String) (constants : List Token) : List Printed :=
  [(.ident "closure", [.blank ' ' rfl]), (.ident name, []), (.openBrace, []),
    (.ident "consts", []), (.colon, []), (.openBracket, [])] ++
  constants.map (fun t => (t, [])) ++ [(.closeBracket, []), (.closeBrace, [])]

def spacedRows (tokens : List Token) : List Printed :=
  tokens.map fun t => (t, [.blank ' ' rfl])

theorem map_spacedRows (tokens : List Token) : (spacedRows tokens).map Prod.fst = tokens := by
  rw [spacedRows, List.map_map]
  exact List.map_id tokens

theorem apart_spacedRows (tokens : List Token) : (spacedRows tokens).IsChain Lexeme.Apart := by
  refine Lexeme.isChain_apart fun row member => ?_
  obtain ⟨t, _, rfl⟩ := List.mem_map.mp (List.dropLast_subset _ member)
  exact List.cons_ne_nil _ _

end StaticImage.Snapshot
