import Mathlib.Data.List.Forall2
import StaticImage.Proofs.Parsing.Yielding
import StaticImage.Proofs.Snapshot.Grammar
import StaticImage.Snapshot.Reading

namespace StaticImage.Snapshot

open Parsing

structure ItemForm where
  kind : String
  name : Option String
  fields : List (String × Form)
  deriving DecidableEq

def Item.form (i : Item) : ItemForm :=
  ⟨i.kind.value, i.name.map Located.value, i.given⟩

def FieldPhrase.form (f : FieldPhrase) : String × Form :=
  (f.name, f.value.form)

def ItemPhrase.form (i : ItemPhrase) : ItemForm :=
  ⟨i.kind, i.name, i.fields.elements.map FieldPhrase.form⟩

def Field.form (f : Field) : String × Form :=
  (f.name.value, f.value.value.form)

theorem map_eq_of_forall₂ {α β γ : Type} {f : α → γ} {g : β → γ} {xs : List α} {ys : List β}
    (each : List.Forall₂ (fun x y => f x = g y) xs ys) : xs.map f = ys.map g := by
  rw [← List.forall₂_eq_eq_eq, List.forall₂_map_left_iff, List.forall₂_map_right_iff]
  exact each

namespace Reading

variable {s : Source Token} {i k : Nat}

/-- Every value of a reader is what some derivation of the tokens in front of it stands for. -/
def Derives {α δ : Type} (p : Reader α) (word : δ → List Token) (means : δ → α → Prop) : Prop :=
  ∀ (s : Source Token) (i : Nat) (x : α) (k : Nat), p.Yields s i x k →
    ∃ d, means d x ∧ s.rest i = word d ++ s.rest k

theorem name_derives : Derives name (fun n => [.ident n]) fun n x => n = x.value := by
  intro s i x k yields
  obtain ⟨n, item, rfl⟩ := yields.of_labelled.of_mapSpan
  obtain ⟨t, accepted, left⟩ := item.rest_of_item
  cases t <;> cases accepted
  exact ⟨_, rfl, left⟩

theorem literal_derives : Derives literal Phrase.tokens fun d e => d.form = e.form := by
  intro s i e k yields
  obtain ⟨t, accepted, left⟩ := yields.of_labelled.rest_of_item
  cases t <;> cases accepted
  · exact ⟨.nil, rfl, left⟩
  · exact ⟨.bool _, rfl, left⟩
  · exact ⟨.int _, rfl, left⟩
  · exact ⟨.real _, rfl, left⟩
  · exact ⟨.string _, rfl, left⟩

section

variable {α δ : Type} {p : Reader α} {word : δ → List Token} {means : δ → α → Prop}

theorem behind_derives (each : Derives p word means) {x : α} {xs : List α} {j : Nat}
    (first : p.Yields s i x j) (behind : Parser.YieldsBehind p (.one .comma) s j xs k) :
    ∃ d : Series δ, List.Forall₂ means d.elements (x :: xs) ∧
      s.rest i = d.tokens word ++ s.rest k := by
  induction behind generalizing i x with
  | done j =>
      obtain ⟨d, meant, left⟩ := each _ _ _ _ first
      exact ⟨.last d, .cons meant .nil, left⟩
  | trailing last =>
      obtain ⟨d, meant, left⟩ := each _ _ _ _ first
      refine ⟨.more d .none, .cons meant .nil, ?_⟩
      rw [left, last.of_one.2, Series.tokens, Series.tokens, List.append_assoc]
      rfl
  | more apart next others ih =>
      obtain ⟨d, meant, left⟩ := each _ _ _ _ first
      obtain ⟨series, later, left'⟩ := ih next
      refine ⟨.more d series, .cons meant later, ?_⟩
      rw [left, apart.of_one.2, left', Series.tokens, List.append_assoc]
      rfl

theorem commaSeparated_derives (each : Derives p word means) :
    Derives (commaSeparated p) (Series.tokens word)
      fun d xs => List.Forall₂ means d.elements xs := by
  intro s i xs k yields
  rcases yields.of_separated with ⟨rfl, rfl⟩ | ⟨x, others, j, rfl, first, behind⟩
  · exact ⟨.none, .nil, rfl⟩
  · exact behind_derives each first behind

theorem between_derives (each : Derives p word means) (opening closing : Token) :
    Derives (p.between (.one opening) (.one closing))
      (fun d => opening :: word d ++ [closing]) means := by
  intro s i x k yields
  obtain ⟨a, b, opens, inside, closes⟩ := yields.of_between
  obtain ⟨d, meant, left⟩ := each _ _ _ _ inside
  refine ⟨d, meant, ?_⟩
  rw [opens, left, closes]
  simp only [List.cons_append, List.append_assoc, List.nil_append]

end

theorem entry_derives {expr : Reader (Located Expr)}
    (each : Derives expr Phrase.tokens fun d e => d.form = e.value.form) :
    Derives (entry expr) Phrase.entryWord fun d e =>
      (d.1.form, d.2.form) = (e.1.value.form, e.2.value.form) := by
  intro s i e k yields
  obtain ⟨j, front, value⟩ := yields.of_both
  obtain ⟨m, _, key, colon⟩ := front.of_first
  obtain ⟨d, keys, left⟩ := each _ _ _ _ key
  obtain ⟨d', values, left'⟩ := each _ _ _ _ value
  refine ⟨(d, d'), Prod.ext keys values, ?_⟩
  rw [left, colon.of_one.2, left', Phrase.entryWord, List.append_assoc]
  rfl

/-- One level of an expression, whose parts are read by a reader that is sound. -/
theorem exprBody_derives {expr : Reader (Located Expr)}
    (each : Derives expr Phrase.tokens fun d e => d.form = e.value.form) :
    Derives (exprBody expr) Phrase.tokens fun d e => d.form = e.value.form := by
  intro s i e k yields
  obtain ⟨e, any, rfl⟩ := yields.of_mapSpan
  rcases any.of_or with any | map
  · rcases any.of_or with any | list
    · rcases any.of_or with any | reference
      · rcases any.of_or with literal | call
        · exact literal_derives _ _ _ _ literal
        · obtain ⟨⟨f, arguments⟩, both, rfl⟩ := call.of_labelled.of_map
          obtain ⟨j, named, inside⟩ := both.of_both
          obtain ⟨_, rfl, left⟩ := name_derives _ _ _ _ named
          obtain ⟨d, forms, left'⟩ :=
            between_derives (commaSeparated_derives each) _ _ _ _ _ _ inside
          have form : (Phrase.call f.value d).form = (Expr.call f arguments).form := by
            rw [Phrase.form, Expr.form, formsOf_eq_map, Phrase.itemForms_eq,
              map_eq_of_forall₂ forms]
          refine ⟨.call f.value d, form, ?_⟩
          rw [left, left', Phrase.tokens, Phrase.itemTokens_eq]
          rfl
      · obtain ⟨n, named, rfl⟩ := reference.of_map
        obtain ⟨_, rfl, left⟩ := name_derives _ _ _ _ named
        exact ⟨.ref n.value, rfl, left⟩
    · obtain ⟨items, inside, rfl⟩ := list.of_labelled.of_map
      obtain ⟨d, forms, left⟩ := between_derives (commaSeparated_derives each) _ _ _ _ _ _ inside
      have form : (Phrase.list d).form = (Expr.list items).form := by
        rw [Phrase.form, Expr.form, formsOf_eq_map, Phrase.itemForms_eq, map_eq_of_forall₂ forms]
      refine ⟨.list d, form, ?_⟩
      rw [left, Phrase.tokens, Phrase.itemTokens_eq]
  · obtain ⟨entries, inside, rfl⟩ := map.of_labelled.of_map
    obtain ⟨d, forms, left⟩ :=
      between_derives (commaSeparated_derives (entry_derives each)) _ _ _ _ _ _ inside
    have form : (Phrase.map d).form = (Expr.map entries).form := by
      rw [Phrase.form, Expr.form, entryFormsOf_eq_map, Phrase.entryForms_eq,
        map_eq_of_forall₂ forms]
    refine ⟨.map d, form, ?_⟩
    rw [left, Phrase.tokens, Phrase.entryTokens_eq]

theorem expr_derives : Derives expr Phrase.tokens fun d e => d.form = e.value.form := by
  have levels (depth : Nat) :
      Derives (Parser.nested exprBody depth) Phrase.tokens fun d e => d.form = e.value.form := by
    induction depth with
    | zero => exact fun _ _ _ _ yields => (Parser.not_yields_nested_zero yields).elim
    | succ depth ih => exact exprBody_derives ih
  intro s i e k yields
  obtain ⟨depth, given⟩ := yields.of_recursive
  exact levels depth s i e k given

theorem field_derives : Derives field FieldPhrase.tokens fun d f => d.form = f.form := by
  intro s i f k yields
  obtain ⟨⟨n, e⟩, both, rfl⟩ := yields.of_labelled.of_map
  obtain ⟨j, front, value⟩ := both.of_both
  obtain ⟨m, _, named, colon⟩ := front.of_first
  obtain ⟨_, rfl, left⟩ := name_derives _ _ _ _ named
  obtain ⟨d, form, left'⟩ := expr_derives _ _ _ _ value
  refine ⟨⟨n.value, d⟩, Prod.ext rfl form, ?_⟩
  rw [left, colon.of_one.2, left']
  rfl

theorem item_derives : Derives item ItemPhrase.tokens fun d i => d.form = i.form := by
  intro s i x k yields
  obtain ⟨⟨⟨kind, name?⟩, fields⟩, both, rfl⟩ := yields.of_labelled.of_mapSpan
  obtain ⟨j, front, inside⟩ := both.of_both
  obtain ⟨m, named, perhaps⟩ := front.of_both
  obtain ⟨_, rfl, left⟩ := name_derives _ _ _ _ named
  obtain ⟨d, forms, left'⟩ :=
    between_derives (commaSeparated_derives field_derives) _ _ _ _ _ _ inside
  have title : s.rest m = (name?.map Located.value).toList.map Token.ident ++ s.rest j := by
    rcases perhaps.of_optional with ⟨n, rfl, given⟩ | ⟨rfl, rfl⟩
    · obtain ⟨_, rfl, there⟩ := name_derives _ _ _ _ given
      exact there
    · rfl
  refine ⟨⟨kind.value, name?.map Located.value, d⟩, ?_, ?_⟩
  · exact congrArg (ItemForm.mk _ _) (map_eq_of_forall₂ forms)
  · rw [left, title, left']
    simp only [ItemPhrase.tokens, List.cons_append, List.append_assoc, List.nil_append]

theorem items_derive {result : List Item} (yields : items.Yields s i result k) :
    ∃ derivations : List ItemPhrase, derivations.map ItemPhrase.form = result.map Item.form ∧
      s.rest i = derivations.flatMap ItemPhrase.tokens := by
  obtain ⟨j, _, all, ended⟩ := yields.of_first
  have rest := ended.of_ending.1
  have each := all.of_many
  clear all yields ended
  induction each with
  | nil i => exact ⟨[], rfl, rest⟩
  | cons first others ih =>
      obtain ⟨d, form, left⟩ := item_derives _ _ _ _ first
      obtain ⟨ds, forms, later⟩ := ih rest
      refine ⟨d :: ds, ?_, ?_⟩
      · rw [List.map_cons, List.map_cons, form, forms]
      · rw [left, later, List.flatMap_cons]

end Reading

end StaticImage.Snapshot
