import StaticImage.Proofs.Parsing.Taking
import StaticImage.Proofs.Snapshot.Derivations

/-!
What the grammar derives is read. Readers try alternatives in order, so what has to be shown is that
no earlier alternative takes the beginning of a word that a later one derives.
-/

namespace StaticImage.Snapshot

open Parsing

namespace Reading

variable {after left : List Token}

theorem name_takes (n : String) : name.Takes [.ident n] after fun x => n = x.value := by
  refine Parser.Takes.labelled (Parser.Takes.mapSpan (Parser.takes_item (x := n) ?_) _ ?_) _
  · rfl
  · exact fun _ _ same => same.symm

theorem name_refuses (other : ∀ n, .ident n ∉ left.head?) : name.Refuses left := by
  refine ((Parser.refuses_item fun t member => ?_).mapSpan _).labelled _
  cases t with
  | ident n => exact (other n member).elim
  | _ => rfl

theorem literal_refuses (other : ∀ t ∈ left.head?, t.isLiteral = false) : literal.Refuses left := by
  refine (Parser.refuses_item fun t member => ?_).labelled _
  have refused := other t member
  cases t <;> first | rfl | cases refused

theorem colon_takes : (Parser.one Token.colon).Takes [.colon] after (· = .colon) :=
  Parser.takes_one Token.colon

def Accepts {α δ : Type} (p : Reader α) (word : δ → List Token) (means : δ → α → Prop) (d : δ) :
    Prop :=
  ∀ after : List Token, Token.openParen ∉ after.head? → p.Takes (word d) after (means d)

section

variable {α δ : Type} {p : Reader α} {word : δ → List Token} {means : δ → α → Prop}
  {closing : Token}

theorem Accepts.before {d : δ} (accepts : Accepts p word means d) (t : Token)
    (plain : t ≠ .openParen) (more : List Token) : p.Takes (word d) (t :: more) (means d) :=
  accepts (t :: more) (by simpa using plain)

theorem behind_takes (closes : p.Refuses (closing :: after)) (apart : closing ≠ .comma)
    (plain : closing ≠ .openParen) (s : Series δ)
    (each : ∀ d ∈ s.elements, Accepts p word means d) :
    Parser.TakesBehind p .comma (.comma :: s.tokens word) (closing :: after)
      (List.Forall₂ means s.elements) := by
  have other : Token.comma ∉ (closing :: after).head? := by simpa using apart
  induction s with
  | none => exact closes.trailing .nil
  | last d =>
      have taken := (each d List.mem_cons_self).before closing plain after
      have alone := Parser.TakesBehind.cons taken (Parser.takesBehind_nil other .nil)
        fun _ _ => List.Forall₂.cons (R := means)
      rwa [List.append_nil] at alone
  | more d others ih =>
      have taken := (each d List.mem_cons_self).before .comma (by decide)
        (others.tokens word ++ closing :: after)
      have later := ih fun d member => each d (List.mem_cons_of_mem _ member)
      exact Parser.TakesBehind.cons taken later fun _ _ => List.Forall₂.cons

theorem commaSeparated_takes (closes : p.Refuses (closing :: after)) (apart : closing ≠ .comma)
    (plain : closing ≠ .openParen) (s : Series δ)
    (each : ∀ d ∈ s.elements, Accepts p word means d) :
    (commaSeparated p).Takes (s.tokens word) (closing :: after)
      (List.Forall₂ means s.elements) := by
  have other : Token.comma ∉ (closing :: after).head? := by simpa using apart
  cases s with
  | none => exact closes.separated _ .nil
  | last d =>
      have taken := (each d List.mem_cons_self).before closing plain after
      have alone := taken.separated (Parser.takesBehind_nil other .nil)
        fun _ _ => List.Forall₂.cons (R := means)
      rwa [List.append_nil] at alone
  | more d others =>
      have taken := (each d List.mem_cons_self).before .comma (by decide)
        (others.tokens word ++ closing :: after)
      have later := behind_takes closes apart plain others fun d member =>
        each d (List.mem_cons_of_mem _ member)
      exact taken.separated later fun _ _ => List.Forall₂.cons

end

theorem plain_refuses {expr : Reader (Located Expr)}
    (other : ∀ t ∈ left.head?, t.isLiteral = false) (unnamed : ∀ n, .ident n ∉ left.head?) :
    ((literal.or (call expr)).or reference).Refuses left := by
  have named := name_refuses unnamed
  exact ((literal_refuses other).or (((named.both _).map _).labelled _)).or (named.map _)

theorem exprBody_refuses {expr : Reader (Located Expr)}
    (closed : ∀ t ∈ left.head?, t.opens = false) : (exprBody expr).Refuses left := by
  have valueless : ∀ t ∈ left.head?, t.isLiteral = false := by
    intro t member
    have shut := closed t member
    cases t <;> first | rfl | cases shut
  have absent (t : Token) (opens : t.opens = true) : t ∉ left.head? := by
    intro member
    rw [closed t member] at opens
    cases opens
  have plain : ((literal.or (call expr)).or reference).Refuses left :=
    plain_refuses valueless fun n => absent (.ident n) rfl
  refine ((plain.or ?_).or ?_).mapSpan _
  · exact ((Parser.refuses_between (absent .openBracket rfl) _).map _).labelled _
  · exact ((Parser.refuses_between (absent .openBrace rfl) _).map _).labelled _

theorem nested_refuses (closed : ∀ t ∈ left.head?, t.opens = false) (depth : Nat) :
    (Parser.nested exprBody depth).Refuses left := by
  cases depth with
  | zero => exact Parser.refuses_nested_zero
  | succ depth => exact exprBody_refuses closed

theorem entry_refuses (closed : ∀ t ∈ left.head?, t.opens = false) (depth : Nat) :
    (entry (Parser.nested exprBody depth)).Refuses left :=
  (((nested_refuses closed depth).both _).map _).both _

theorem entry_accepts {expr : Reader (Located Expr)} {e : Phrase × Phrase}
    (key : Accepts expr Phrase.tokens (fun d x => d.form = x.value.form) e.1)
    (value : Accepts expr Phrase.tokens (fun d x => d.form = x.value.form) e.2) :
    Accepts (entry expr) Phrase.entryWord
      (fun d x => (d.1.form, d.2.form) = (x.1.value.form, x.2.value.form)) e := by
  intro after follows
  have front := (key.before .colon (by decide) (e.2.tokens ++ after)).first colon_takes
  have both : (entry expr).Takes (e.1.tokens ++ [.colon] ++ e.2.tokens) after
      fun x => (e.1.form, e.2.form) = (x.1.value.form, x.2.value.form) :=
    (front.both (value after follows)).mono fun x held => Prod.ext held.1 held.2
  rwa [List.append_assoc] at both

theorem exprBody_takes_literal {expr : Reader (Located Expr)} (d : Phrase)
    (alone : ∀ t ∈ d.tokens.head?, t.isLiteral = true) :
    (exprBody expr).Takes d.tokens after fun x => d.form = x.value.form := by
  have whole {t : Token} {e : Expr} (taken : literal.Takes [t] after (· = e)) :
      (exprBody expr).Takes [t] after fun x => e.form = x.value.form := by
    refine Parser.Takes.mapSpan ((((taken.or _).or _).or _).or _) _ ?_
    exact fun _ _ same => congrArg Expr.form same.symm
  cases d with
  | nil =>
      refine whole (e := .nil) (Parser.Takes.labelled (Parser.takes_item ?_) _)
      rfl
  | bool b =>
      refine whole (e := .bool b) (Parser.Takes.labelled (Parser.takes_item ?_) _)
      rfl
  | int n =>
      refine whole (e := .int n) (Parser.Takes.labelled (Parser.takes_item ?_) _)
      rfl
  | real literal =>
      refine whole (e := .real literal) (Parser.Takes.labelled (Parser.takes_item ?_) _)
      rfl
  | string content =>
      refine whole (e := .string content) (Parser.Takes.labelled (Parser.takes_item ?_) _)
      rfl
  | _ => cases alone _ rfl

theorem exprBody_takes_ref {expr : Reader (Located Expr)} (n : String)
    (follows : Token.openParen ∉ after.head?) :
    (exprBody expr).Takes [.ident n] after fun x => (Phrase.ref n).form = x.value.form := by
  have literal : literal.Refuses ([.ident n] ++ after) :=
    literal_refuses (by simp [Token.isLiteral])
  have call : (call expr).Refuses ([.ident n] ++ after) :=
    (((name_takes n).both_refuses (Parser.refuses_between follows _)).map _).labelled _
  have taken : reference.Takes [.ident n] after fun e => Form.ref n = e.form :=
    (name_takes n).map _ fun _ same => congrArg Form.ref same
  refine Parser.Takes.mapSpan ((((literal.or call).or_takes taken).or _).or _) _ ?_
  exact fun _ _ same => same

theorem exprBody_takes_call {expr : Reader (Located Expr)} (function : String)
    {arguments : Series Phrase}
    (inside : (commaSeparated expr).Takes (arguments.tokens Phrase.tokens) (.closeParen :: after)
      (List.Forall₂ (fun d e => d.form = e.value.form) arguments.elements)) :
    (exprBody expr).Takes (Phrase.call function arguments).tokens after
      fun x => (Phrase.call function arguments).form = x.value.form := by
  have literal : literal.Refuses ((Phrase.call function arguments).tokens ++ after) :=
    literal_refuses (by simp [Phrase.tokens, Token.isLiteral])
  have taken : (call expr).Takes (Phrase.call function arguments).tokens after
      fun e => (Phrase.call function arguments).form = e.form := by
    have both := (name_takes function).both (inside.between .openParen)
    rw [Phrase.tokens, Phrase.itemTokens_eq]
    refine Parser.Takes.labelled (both.map _ ?_) _
    rintro ⟨f, es⟩ ⟨named, forms⟩
    change function = f.value at named
    rw [Phrase.form, Expr.form, formsOf_eq_map, Phrase.itemForms_eq, named,
      map_eq_of_forall₂ forms]
  refine Parser.Takes.mapSpan (((literal.or_takes taken).or _).or _ |>.or _) _ ?_
  exact fun _ _ same => same

theorem exprBody_takes_list {expr : Reader (Located Expr)} {items : Series Phrase}
    (inside : (commaSeparated expr).Takes (items.tokens Phrase.tokens) (.closeBracket :: after)
      (List.Forall₂ (fun d e => d.form = e.value.form) items.elements)) :
    (exprBody expr).Takes (Phrase.list items).tokens after
      fun x => (Phrase.list items).form = x.value.form := by
  have plain : ((literal.or (call expr)).or reference).Refuses
      ((Phrase.list items).tokens ++ after) :=
    plain_refuses (by simp [Phrase.tokens, Token.isLiteral]) (by simp [Phrase.tokens])
  have taken : (list expr).Takes (Phrase.list items).tokens after
      fun e => (Phrase.list items).form = e.form := by
    rw [Phrase.tokens, Phrase.itemTokens_eq]
    refine Parser.Takes.labelled ((inside.between .openBracket).map _ fun es forms => ?_) _
    rw [Phrase.form, Expr.form, formsOf_eq_map, Phrase.itemForms_eq, map_eq_of_forall₂ forms]
  refine Parser.Takes.mapSpan ((plain.or_takes taken).or _) _ ?_
  exact fun _ _ same => same

theorem exprBody_takes_map {expr : Reader (Located Expr)} {entries : Series (Phrase × Phrase)}
    (inside : (commaSeparated (entry expr)).Takes (entries.tokens Phrase.entryWord)
      (.closeBrace :: after) (List.Forall₂ (fun d e =>
        (d.1.form, d.2.form) = (e.1.value.form, e.2.value.form)) entries.elements)) :
    (exprBody expr).Takes (Phrase.map entries).tokens after
      fun x => (Phrase.map entries).form = x.value.form := by
  have plain : ((literal.or (call expr)).or reference).Refuses
      ((Phrase.map entries).tokens ++ after) :=
    plain_refuses (by simp [Phrase.tokens, Token.isLiteral]) (by simp [Phrase.tokens])
  have list : (list expr).Refuses ((Phrase.map entries).tokens ++ after) :=
    ((Parser.refuses_between (by simp [Phrase.tokens]) _).map _).labelled _
  have taken : (map expr).Takes (Phrase.map entries).tokens after
      fun e => (Phrase.map entries).form = e.form := by
    rw [Phrase.tokens, Phrase.entryTokens_eq]
    refine Parser.Takes.labelled ((inside.between .openBrace).map _ fun es forms => ?_) _
    rw [Phrase.form, Expr.form, entryFormsOf_eq_map, Phrase.entryForms_eq,
      map_eq_of_forall₂ forms]
  refine Parser.Takes.mapSpan ((plain.or list).or_takes taken) _ ?_
  exact fun _ _ same => same

theorem length_word_le {α : Type} (word : α → List Token) (s : Series α) (x : α)
    (member : x ∈ s.elements) : (word x).length ≤ (s.tokens word).length := by
  induction s with
  | none => cases member
  | last y =>
      rw [List.mem_singleton.mp member]
      exact Nat.le_refl _
  | more y others ih =>
      rw [Series.tokens, List.length_append, List.length_cons]
      rcases List.mem_cons.mp member with rfl | inside
      · omega
      · have shorter := ih inside
        omega

/-- Every expression that the grammar derives is read, down to its last level. -/
theorem nested_accepts (d : Phrase) (depth : Nat) (enough : d.tokens.length ≤ depth) :
    Accepts (Parser.nested exprBody depth) Phrase.tokens (fun d e => d.form = e.value.form) d := by
  induction d generalizing depth with
  | nil | bool b | int n | real literal | string content =>
      cases depth with
      | zero => cases enough
      | succ depth =>
          exact fun after _ =>
            exprBody_takes_literal _ (by simp [Phrase.tokens, Token.isLiteral])
  | ref name =>
      cases depth with
      | zero => cases enough
      | succ depth => exact fun after follows => exprBody_takes_ref name follows
  | call function arguments each =>
      cases depth with
      | zero => cases enough
      | succ depth =>
          intro after _
          rw [Phrase.tokens, Phrase.itemTokens_eq] at enough
          simp only [List.length_append, List.length_cons, List.length_nil] at enough
          refine exprBody_takes_call function (commaSeparated_takes
            (nested_refuses (by simp [Token.opens, Token.isLiteral]) depth)
            (by decide) (by decide) arguments fun d member => ?_)
          have shorter := length_word_le Phrase.tokens arguments d member
          exact each d member depth (by omega)
  | list items each =>
      cases depth with
      | zero => cases enough
      | succ depth =>
          intro after _
          rw [Phrase.tokens, Phrase.itemTokens_eq] at enough
          simp only [List.length_append, List.length_cons, List.length_nil] at enough
          refine exprBody_takes_list (commaSeparated_takes
            (nested_refuses (by simp [Token.opens, Token.isLiteral]) depth)
            (by decide) (by decide) items fun d member => ?_)
          have shorter := length_word_le Phrase.tokens items d member
          exact each d member depth (by omega)
  | map entries each =>
      cases depth with
      | zero => cases enough
      | succ depth =>
          intro after _
          rw [Phrase.tokens, Phrase.entryTokens_eq] at enough
          simp only [List.length_append, List.length_cons, List.length_nil] at enough
          refine exprBody_takes_map (commaSeparated_takes
            (entry_refuses (by simp [Token.opens, Token.isLiteral]) depth)
            (by decide) (by decide) entries fun e member => ?_)
          have shorter := length_word_le Phrase.entryWord entries e member
          rw [Phrase.entryWord, List.length_append, List.length_cons] at shorter
          obtain ⟨key, value⟩ := each e member
          exact entry_accepts (key depth (by omega)) (value depth (by omega))

theorem expr_accepts (d : Phrase) :
    Accepts expr Phrase.tokens (fun d e => d.form = e.value.form) d := by
  intro after follows
  refine Parser.Takes.recursive fun depth enough => ?_
  exact nested_accepts d depth (Nat.le_of_lt enough) after follows

theorem field_accepts (d : FieldPhrase) :
    Accepts field FieldPhrase.tokens (fun d f => d.form = f.form) d := by
  intro after follows
  have both := ((name_takes d.name).first colon_takes).both (expr_accepts d.value after follows)
  refine Parser.Takes.labelled (both.map _ ?_) _
  rintro ⟨n, e⟩ ⟨named, form⟩
  exact Prod.ext named form

theorem field_refuses (other : ∀ n, .ident n ∉ left.head?) : field.Refuses left :=
  ((((name_refuses other).both _).map _).both _).map _ |>.labelled _

theorem item_takes (d : ItemPhrase) (after : List Token) :
    item.Takes d.tokens after fun i => d.form = i.form := by
  have fields : (commaSeparated field).Takes (d.fields.tokens FieldPhrase.tokens)
      (.closeBrace :: after) (List.Forall₂ (fun d f => d.form = f.form) d.fields.elements) :=
    commaSeparated_takes (field_refuses (by simp)) (by decide) (by decide) d.fields
      fun f _ => field_accepts f
  have title (more : List Token) : name.optional.Takes (d.name.toList.map .ident)
      (.openBrace :: more) fun n? => d.name = n?.map Located.value := by
    cases d.name with
    | none => exact (name_refuses (by simp)).optional.mono fun _ absent => absent ▸ rfl
    | some n =>
        refine (name_takes n).optional.mono ?_
        rintro _ ⟨x, rfl, named⟩
        exact congrArg some named
  have whole := ((name_takes d.kind).both (title _)).both (fields.between .openBrace)
  have word : d.tokens = [.ident d.kind] ++ d.name.toList.map .ident ++
      (.openBrace :: d.fields.tokens FieldPhrase.tokens ++ [.closeBrace]) := by
    simp only [ItemPhrase.tokens, List.cons_append, List.append_assoc, List.nil_append]
  rw [word]
  refine Parser.Takes.labelled (whole.mapSpan _ ?_) _
  rintro ⟨⟨kind, n?⟩, fs⟩ span ⟨⟨named, titled⟩, forms⟩
  change d.kind = kind.value at named
  change d.name = n?.map Located.value at titled
  change ItemForm.mk _ _ _ = ItemForm.mk _ _ _
  rw [named, titled, map_eq_of_forall₂ forms]
  rfl

theorem items_take (derivations : List ItemPhrase) :
    items.Takes (derivations.flatMap ItemPhrase.tokens) [] fun result =>
      derivations.map ItemPhrase.form = result.map Item.form := by
  have all : item.TakesAll (derivations.flatMap ItemPhrase.tokens) [] fun result =>
      derivations.map ItemPhrase.form = result.map Item.form := by
    induction derivations with
    | nil => exact Parser.takesAll_nil rfl
    | cons d others ih =>
        refine Parser.TakesAll.cons (item_takes d _) (by simp [ItemPhrase.tokens]) ih ?_
        intro x xs form forms
        rw [List.map_cons, List.map_cons, form, forms]
  have closes : item.Refuses [] :=
    ((((name_refuses (by simp)).both _).both _).mapSpan _).labelled _
  have whole := (all.many closes).first Parser.takes_ending
  rwa [List.append_nil] at whole

end Reading

theorem rest_tokenSource (length : Nat) (tokens : List (Token × Span)) :
    (tokenSource length tokens).rest 0 = tokens.map Prod.fst := by
  simp [Source.rest, tokenSource]

variable {text : String} {tokens : List (Token × Span)}

theorem parse_of_sound (sound : lex text = (some tokens, [])) :
    parse text = match Reading.items.run (tokenSource text.length tokens) with
      | (some items, []) => .ok items
      | (_, failures) => .error (failures.map (TextError.ofFailure Token.display)) := by
  unfold parse
  rewrite [sound]
  rfl

theorem lexed_of_parse {items : List Item} (parsed : parse text = .ok items) :
    ∃ tokens, lex text = (some tokens, []) := by
  unfold parse at parsed
  split at parsed
  · rename_i tokens sound
    exact ⟨tokens, sound⟩
  · cases parsed

theorem parse_of_derived (sound : lex text = (some tokens, [])) {derivations : List ItemPhrase}
    (derived : derivations.flatMap ItemPhrase.tokens = tokens.map Prod.fst) :
    ∃ items, parse text = .ok items ∧
      items.map Item.form = derivations.map ItemPhrase.form := by
  have there : (tokenSource text.length tokens).rest 0 =
      derivations.flatMap ItemPhrase.tokens ++ [] := by
    rw [rest_tokenSource, List.append_nil, derived]
  obtain ⟨items, forms, gives⟩ := Reading.items_take derivations _ _ there
  refine ⟨items, ?_, forms.symm⟩
  rw [parse_of_sound sound, gives.run]

theorem derived_of_parse (sound : lex text = (some tokens, [])) {items : List Item}
    (parsed : parse text = .ok items) :
    ∃ derivations : List ItemPhrase,
      derivations.flatMap ItemPhrase.tokens = tokens.map Prod.fst ∧
        items.map Item.form = derivations.map ItemPhrase.form := by
  rw [parse_of_sound sound] at parsed
  split at parsed
  · rename_i result ran
    cases parsed
    obtain ⟨k, yields⟩ := Parser.yields_of_run ran
    obtain ⟨derivations, forms, left⟩ := Reading.items_derive yields
    exact ⟨derivations, left.symm.trans (rest_tokenSource _ _), forms.symm⟩
  · cases parsed

/-- A text without errors in its tokens is parsed exactly if the grammar derives the tokens; they
have one derivation then, and the items are its tree. -/
theorem parse_accepts_grammar (text : String) (tokens : List (Token × Span))
    (sound : lex text = (some tokens, [])) :
    ((∃ items, parse text = .ok items) ↔
      ∃ derivations : List ItemPhrase,
        derivations.flatMap ItemPhrase.tokens = tokens.map Prod.fst) ∧
    ∀ derivations : List ItemPhrase,
      derivations.flatMap ItemPhrase.tokens = tokens.map Prod.fst →
        (∀ others : List ItemPhrase,
          others.flatMap ItemPhrase.tokens = tokens.map Prod.fst → others = derivations) ∧
        ∀ items, parse text = .ok items →
          items.map Item.form = derivations.map ItemPhrase.form := by
  refine ⟨⟨?_, ?_⟩, fun derivations derived => ⟨fun others again => ?_, fun items parsed => ?_⟩⟩
  · rintro ⟨items, parsed⟩
    obtain ⟨derivations, derived, _⟩ := derived_of_parse sound parsed
    exact ⟨derivations, derived⟩
  · rintro ⟨derivations, derived⟩
    obtain ⟨items, parsed, _⟩ := parse_of_derived sound derived
    exact ⟨items, parsed⟩
  · exact items_unambiguous others derivations (again.trans derived.symm)
  · obtain ⟨read, again, forms⟩ := parse_of_derived sound derived
    rw [parsed] at again
    cases again
    exact forms

def callText : String :=
  "m n {f: c(a, [b,],), g: {1: c}} k {}"

def callPhrases : List ItemPhrase :=
  [⟨"m", some "n", .more
      ⟨"f", .call "c" (.more (.ref "a") (.more (.list (.more (.ref "b") .none)) .none))⟩
      (.last ⟨"g", .map (.last (.int 1, .ref "c"))⟩)⟩,
    ⟨"k", none, .none⟩]

theorem call_text_is_accepted :
    ∃ tokens items, lex callText = (some tokens, []) ∧
      callPhrases.flatMap ItemPhrase.tokens = tokens.map Prod.fst ∧
      parse callText = .ok items ∧ items.map Item.form = callPhrases.map ItemPhrase.form ∧
      ∀ others : List ItemPhrase,
        others.flatMap ItemPhrase.tokens = tokens.map Prod.fst → others = callPhrases := by
  have checked : ((lex callText).1.any fun tokens =>
      decide (callPhrases.flatMap ItemPhrase.tokens = tokens.map Prod.fst)) &&
        (lex callText).2.isEmpty := by
    decide +kernel
  obtain ⟨derived, empty⟩ := Bool.and_eq_true_iff.mp checked
  obtain ⟨tokens, lexed, derived⟩ := (Option.any_eq_true _ _).mp derived
  have derived := of_decide_eq_true derived
  have sound : lex callText = (some tokens, []) :=
    Prod.ext lexed (List.isEmpty_iff.mp empty)
  obtain ⟨accepted, each⟩ := parse_accepts_grammar callText tokens sound
  obtain ⟨items, parsed⟩ := accepted.mpr ⟨callPhrases, derived⟩
  obtain ⟨unique, forms⟩ := each callPhrases derived
  exact ⟨tokens, items, sound, derived, parsed, forms items parsed, unique⟩

end StaticImage.Snapshot
