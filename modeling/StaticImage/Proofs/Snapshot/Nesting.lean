import StaticImage.Proofs.Snapshot.Accepting
import StaticImage.Proofs.Snapshot.Graph
import StaticImage.Proofs.Snapshot.TokenSpans

namespace StaticImage.Snapshot

open Parsing

def Expr.parts : Expr → List (Located Expr)
  | .call _ arguments => arguments
  | .list items => items
  | .map entries => entries.flatMap fun e => [e.1, e.2]
  | _ => []

def Expr.partSpans : Expr → List Span
  | .call function arguments => function.span :: arguments.map Located.span
  | .list items => items.map Located.span
  | .map entries => entries.flatMap fun e => [e.1.span, e.2.span]
  | _ => []

/-- An expression that is an identifier, or the function of a call. -/
def identifiers (e : Located Expr) : List (Located String) :=
  match e.value with
  | .ref name => [⟨name, e.span⟩]
  | .call function _ => [function]
  | _ => []

/-- At each level of an expression the parts are apart inside it and the names are those of the
text. -/
inductive WellNested (text : String) : Located Expr → Prop where
  | intro {e : Located Expr} (parts : e.span.Encloses e.value.partSpans)
      (named : ∀ n ∈ identifiers e, n.span.under text = n.value)
      (deeper : ∀ part ∈ e.value.parts, WellNested text part) : WellNested text e

inductive Occurs (inner : Located Expr) : Located Expr → Prop where
  | here : Occurs inner inner
  | deeper {part outer : Located Expr} (member : part ∈ outer.value.parts)
      (occurs : Occurs inner part) : Occurs inner outer

namespace Item

def identifiers (i : Item) : List (Located String) :=
  i.kind :: i.name.toList ++ i.fields.map Field.name

def partSpans (i : Item) : List Span :=
  i.kind.span :: i.name.toList.map Located.span ++
    i.fields.flatMap fun f => [f.name.span, f.value.span]

structure WellNested (text : String) (i : Item) : Prop where
  parts : i.span.Encloses i.partSpans
  named : ∀ n ∈ i.identifiers, n.span.under text = n.value
  values : ∀ f ∈ i.fields, Snapshot.WellNested text f.value

inductive Bears (i : Item) : Span → Prop where
  | whole : Bears i i.span
  | part {span : Span} (member : span ∈ i.partSpans) : Bears i span
  | value {f : Field} {e : Located Expr} {span : Span} (member : f ∈ i.fields)
      (occurs : Occurs e f.value) (inside : span ∈ e.value.partSpans) : Bears i span

end Item

namespace Reading

section

variable {expr : Reader (Located Expr)} {n : Nat}

theorem name_covers : Parser.Covers 1 name :=
  ((Parser.covers_item _ _).mapSpan _).labelled _

theorem commaSeparated_covers {α : Type} {p : Reader α} (covers : Parser.Covers n p) :
    Parser.Covers 0 (commaSeparated p) :=
  covers.separated (Parser.covers_one _)

theorem exprBody_covers (covers : Parser.Covers 0 expr) : Parser.Covers 1 (exprBody expr) := by
  have literal : Parser.Covers 1 literal := (Parser.covers_item _ _).labelled _
  have reference : Parser.Covers 1 reference := name_covers.map _
  have call : Parser.Covers 3 (call expr) :=
    ((name_covers.both ((commaSeparated_covers covers).between _ _)).map _).labelled _
  have list : Parser.Covers 2 (list expr) :=
    (((commaSeparated_covers covers).between _ _).map _).labelled _
  have entry : Parser.Covers 1 (entry expr) := (covers.first (Parser.covers_one _)).both covers
  have map : Parser.Covers 2 (map expr) :=
    (((commaSeparated_covers entry).between _ _).map _).labelled _
  exact ((((literal.or (call.mono (by decide))).or reference).or (list.mono (by decide))).or
    (map.mono (by decide))).mapSpan _

theorem expr_covers : Parser.Covers 1 Reading.expr := by
  intro s i e k yields
  obtain ⟨depth, yields⟩ := yields.of_recursive
  exact Parser.covers_nested (fun _ => exprBody_covers) depth yields

theorem field_covers : Parser.Covers 3 field :=
  (((name_covers.first (Parser.covers_one _)).both expr_covers).map _).labelled _

end

variable {text : String} {s : Source Token} {length : Nat}

section

variable (named : ∀ t ∈ s.items.toList, Named text t)

include named

theorem name_laid {i k : Nat} {n : Located String} (yields : name.Yields s i n k) :
    n.span = s.spanFrom i k ∧ n.span.under text = n.value := by
  obtain ⟨n, item, rfl⟩ := yields.of_labelled.of_mapSpan
  obtain ⟨t, accepted, present⟩ := item.of_item
  have there := named _ (Array.mem_toList_iff.mpr (Array.mem_of_getElem? present))
  cases t <;> cases accepted
  exact ⟨rfl, there _ rfl⟩

theorem name_lays :
    name.Lays s (fun n => [n.span]) fun n => n.span.under text = n.value := by
  intro i n k yields
  obtain ⟨span, under⟩ := name_laid named yields
  obtain ⟨further, _, bound⟩ := name_covers yields
  have single := Source.Parts.single further (bound further)
  rw [← span] at single
  exact ⟨single, under⟩

structure Laid (text : String) (s : Source Token) (i : Nat) (e : Expr) (k : Nat) : Prop where
  parts : s.Parts i e.partSpans k
  named : ∀ n ∈ identifiers ⟨e, s.spanFrom i k⟩, n.span.under text = n.value
  deeper : ∀ part ∈ e.parts, WellNested text part

omit named in
theorem literal_laid {i k : Nat} {e : Expr} (yields : literal.Yields s i e k) :
    Laid text s i e k := by
  have reaches := ((Parser.covers_item _ _).labelled _ yields).2
  obtain ⟨t, accepted, _⟩ := yields.of_labelled.of_item
  cases t <;> cases accepted <;> exact ⟨.none reaches, nofun, nofun⟩

theorem reference_laid {i k : Nat} {e : Expr} (yields : reference.Yields s i e k) :
    Laid text s i e k := by
  obtain ⟨n, read, rfl⟩ := yields.of_map
  obtain ⟨span, under⟩ := name_laid named read
  refine ⟨.none (name_covers read).2, ?_, nofun⟩
  intro m member
  cases List.mem_singleton.mp member
  exact span ▸ under

variable {expr : Reader (Located Expr)}
  (lays : expr.Lays s (fun e => [e.span]) (WellNested text))

include lays

omit named in
theorem commaSeparated_lays :
    (commaSeparated expr).Lays s (List.map Located.span) fun es => ∀ e ∈ es, WellNested text e := by
  intro i es k yields
  obtain ⟨parts, each⟩ := lays.separated (Parser.covers_one _) yields
  rw [← List.map_eq_flatMap] at parts
  exact ⟨parts, each⟩

theorem call_laid {i k : Nat} {e : Expr} (yields : (call expr).Yields s i e k) :
    Laid text s i e k := by
  obtain ⟨⟨f, es⟩, read, rfl⟩ := yields.of_labelled.of_map
  obtain ⟨parts, under, each⟩ :=
    (name_lays named).both ((commaSeparated_lays lays).between _ _) read
  refine ⟨parts, fun n member => ?_, each⟩
  cases List.mem_singleton.mp member
  exact under

omit named in
theorem list_laid {i k : Nat} {e : Expr} (yields : (list expr).Yields s i e k) :
    Laid text s i e k := by
  obtain ⟨es, read, rfl⟩ := yields.of_labelled.of_map
  obtain ⟨parts, each⟩ := (commaSeparated_lays lays).between _ _ read
  exact ⟨parts, nofun, each⟩

omit named in
theorem map_laid {i k : Nat} {e : Expr} (yields : (map expr).Yields s i e k) :
    Laid text s i e k := by
  obtain ⟨entries, read, rfl⟩ := yields.of_labelled.of_map
  have entry : (entry expr).Lays s (fun e => [e.1.span, e.2.span])
      fun e => WellNested text e.1 ∧ WellNested text e.2 :=
    (lays.first (Parser.covers_one _)).both lays
  obtain ⟨parts, each⟩ := (entry.separated (Parser.covers_one _)).between _ _ read
  refine ⟨parts, nofun, fun part member => ?_⟩
  obtain ⟨e, inside, part⟩ := List.mem_flatMap.mp member
  obtain ⟨key, value⟩ := each e inside
  simp only [List.mem_cons, List.not_mem_nil, or_false] at part
  rcases part with rfl | rfl
  · exact key
  · exact value

variable (orderly : s.Orderly length)

include orderly

theorem exprBody_lays (covers : Parser.Covers 0 expr) :
    (exprBody expr).Lays s (fun e => [e.span]) (WellNested text) := by
  intro i e k yields
  obtain ⟨further, _, bound⟩ := exprBody_covers covers yields
  obtain ⟨e, read, rfl⟩ := yields.of_mapSpan
  have laid : Laid text s i e k := by
    rcases read.of_or with read | map
    · rcases read.of_or with read | list
      · rcases read.of_or with read | reference
        · rcases read.of_or with literal | call
          · exact literal_laid literal
          · exact call_laid named lays call
        · exact reference_laid named reference
      · exact list_laid lays list
    · exact map_laid lays map
  exact ⟨.single further (bound further),
    .intro (laid.parts.enclosed orderly (bound further)) laid.named laid.deeper⟩

end

section

variable (named : ∀ t ∈ s.items.toList, Named text t) (orderly : s.Orderly length)

include named orderly

theorem expr_lays : expr.Lays s (fun e => [e.span]) (WellNested text) := by
  have nested (depth : Nat) :
      (Parser.nested exprBody depth).Lays s (fun e => [e.span]) (WellNested text) := by
    induction depth with
    | zero => exact fun _ _ _ yields => (Parser.not_yields_nested_zero yields).elim
    | succ depth ih =>
        have covers := Parser.covers_nested (fun _ => exprBody_covers) depth
        exact exprBody_lays named ih orderly (covers.mono (Nat.zero_le 1))
  intro i e k yields
  obtain ⟨depth, yields⟩ := yields.of_recursive
  exact nested depth yields

theorem field_lays :
    field.Lays s (fun f => [f.name.span, f.value.span])
      fun f => f.name.span.under text = f.name.value ∧ WellNested text f.value :=
  ((((name_lays named).first (Parser.covers_one _)).both (expr_lays named orderly)).map _
    (fun _ => rfl) fun _ held => held).labelled _

theorem item_lays : item.Lays s (fun i => [i.span]) (Item.WellNested text) := by
  have fields := ((field_lays named orderly).separated (Parser.covers_one .comma)).between
    Token.openBrace Token.closeBrace
  have covers := (name_covers.both name_covers.optional).both
    ((commaSeparated_covers field_covers).between Token.openBrace Token.closeBrace)
  have title := (name_lays named).both (name_lays named).optional
  refine ((title.both fields).mapSpan (covers.mono (by decide)) orderly _ (fun _ _ => rfl)
    ?_).labelled _
  rintro ⟨⟨kind, n?⟩, fs⟩ span parts ⟨⟨kind_under, name_under⟩, each⟩
  refine ⟨?_, ?_, fun f member => (each f member).2⟩
  · rw [← List.map_eq_flatMap] at parts
    exact parts
  · intro n member
    simp only [Item.identifiers, List.cons_append, List.mem_cons, List.mem_append,
      Option.mem_toList, List.mem_map] at member
    rcases member with rfl | here | ⟨f, inside, rfl⟩
    · exact kind_under
    · exact name_under n here
    · exact (each f inside).1

end

end Reading

variable {text : String} {items : List Item}

theorem span_mem_partSpans {e : Expr} {part : Located Expr} (member : part ∈ e.parts) :
    part.span ∈ e.partSpans := by
  cases e with
  | call function arguments => exact List.mem_cons_of_mem _ (List.mem_map_of_mem member)
  | list items => exact List.mem_map_of_mem member
  | map entries =>
      obtain ⟨e, inside, part⟩ := List.mem_flatMap.mp member
      refine List.mem_flatMap.mpr ⟨e, inside, ?_⟩
      simp only [List.mem_cons, List.not_mem_nil, or_false] at part ⊢
      exact part.imp (congrArg _) (congrArg _)
  | _ => cases member

theorem WellNested.occurs {inner outer : Located Expr} (nested : WellNested text outer)
    (occurs : Occurs inner outer) :
    WellNested text inner ∧ ∀ span ∈ inner.value.partSpans, span.Within outer.span := by
  induction occurs with
  | here =>
      refine ⟨nested, ?_⟩
      cases nested with
      | intro parts named deeper => exact parts.within
  | deeper member _ ih =>
      cases nested with
      | intro parts named deeper =>
          obtain ⟨inside, within⟩ := ih (deeper _ member)
          have outer := parts.within _ (span_mem_partSpans member)
          exact ⟨inside, fun span there => (within span there).trans outer⟩

namespace Item

variable {i : Item} (nested : i.WellNested text)

include nested

theorem WellNested.filled : i.span.Within i.span := by
  have kind := nested.parts.within i.kind.span (by simp [partSpans])
  have first := kind.after
  have last := kind.before
  have filled := kind.filled
  exact ⟨Nat.le_refl _, by omega, Nat.le_refl _⟩

theorem Bears.within {span : Span} (bears : i.Bears span) : span.Within i.span := by
  cases bears with
  | whole => exact nested.filled
  | part member => exact nested.parts.within span member
  | value member occurs inside =>
      rename_i f e
      have value : f.value.span ∈ i.partSpans :=
        List.mem_append_right _ (List.mem_flatMap.mpr ⟨f, member, by simp⟩)
      exact (((nested.values f member).occurs occurs).2 span inside).trans
        (nested.parts.within _ value)

end Item

theorem parse_nests (parsed : parse text = .ok items) :
    (⟨0, text.length⟩ : Span).Encloses (items.map Item.span) ∧
      ∀ i ∈ items, i.WellNested text := by
  obtain ⟨tokens, sound⟩ := lexed_of_parse parsed
  obtain ⟨orderly, named⟩ := lex_places sound
  rw [parse_of_sound sound] at parsed
  split at parsed
  · rename_i result ran
    cases parsed
    obtain ⟨k, yields⟩ := Parser.yields_of_run ran
    obtain ⟨parts, each⟩ :=
      (Reading.item_lays named orderly).many.first Parser.covers_ending yields
    rw [← List.map_eq_flatMap] at parts
    exact ⟨parts.bounded orderly, each⟩
  · cases parsed

/-- The spans of a text that is parsed are well nested: its items, their names and fields and the
parts of their expressions are not empty, come in order, each inside what it is a part of, and names
stand where their characters do. -/
theorem spans_are_well_nested (text : String) (items : List Item)
    (parsed : parse text = .ok items) :
    (⟨0, text.length⟩ : Span).Encloses (items.map Item.span) ∧
      ∀ i ∈ items, i.WellNested text ∧ ∀ span, i.Bears span → span.Within ⟨0, text.length⟩ := by
  obtain ⟨apart, nested⟩ := parse_nests parsed
  refine ⟨apart, fun i member => ⟨nested i member, fun span bears => ?_⟩⟩
  exact (bears.within (nested i member)).trans
    (apart.within i.span (List.mem_map_of_mem member))

def scatteredText : String :=
  "/* ñ */ m /*é*/n \x7bf: c(a, /*,*/ [\"ü\", b,],), g: \x7b1\u00a0: c,\x7d // €\n\x7d k \x7b\x7d"

theorem scattered_text_is_well_nested :
    ∃ items, parse scatteredText = .ok items ∧ items.map Item.span = [⟨8, 63⟩, ⟨64, 68⟩] ∧
      (items.flatMap Item.fields).map (fun f => f.value.span) = [⟨21, 43⟩, ⟨48, 56⟩] ∧
      ∀ i ∈ items, i.WellNested scatteredText := by
  have checked : (parse scatteredText).toOption.any fun items =>
      decide (items.map Item.span = [⟨8, 63⟩, ⟨64, 68⟩]) &&
        decide ((items.flatMap Item.fields).map (fun f => f.value.span) =
          [⟨21, 43⟩, ⟨48, 56⟩]) := by
    decide +kernel
  obtain ⟨items, parsed, passed⟩ := exists_ok_of_any checked
  obtain ⟨places, values⟩ := Bool.and_eq_true_iff.mp passed
  have nested := (spans_are_well_nested scatteredText items parsed).2
  exact ⟨items, parsed, of_decide_eq_true places, of_decide_eq_true values,
    fun i member => (nested i member).1⟩

end StaticImage.Snapshot
