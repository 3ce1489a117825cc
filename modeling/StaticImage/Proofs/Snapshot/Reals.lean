import StaticImage.Proofs.Snapshot.Accepting

namespace StaticImage.Snapshot

mutual

def Form.reals : Form → List String
  | .real literal => [literal]
  | .call _ arguments => formsReals arguments
  | .list items => formsReals items
  | .map entries => entriesReals entries
  | _ => []

def formsReals : List Form → List String
  | [] => []
  | f :: fs => f.reals ++ formsReals fs

def entriesReals : List (Form × Form) → List String
  | [] => []
  | (key, f) :: es => key.reals ++ f.reals ++ entriesReals es

end

def Token.real? : Token → Option String
  | .real literal => some literal
  | _ => none

theorem formsReals_eq (fs : List Form) : formsReals fs = fs.flatMap Form.reals := by
  induction fs with
  | nil => rfl
  | cons f fs ih => rw [formsReals, ih, List.flatMap_cons]

theorem entriesReals_eq (es : List (Form × Form)) :
    entriesReals es = es.flatMap fun e => e.1.reals ++ e.2.reals := by
  induction es with
  | nil => rfl
  | cons e es ih =>
      obtain ⟨key, f⟩ := e
      rw [entriesReals, ih, List.flatMap_cons]

theorem Series.reals_tokens {α : Type} {word : α → List Token} {reals : α → List String}
    (s : Series α) (each : ∀ x ∈ s.elements, reals x = (word x).filterMap Token.real?) :
    s.elements.flatMap reals = (s.tokens word).filterMap Token.real? := by
  induction s with
  | none => rfl
  | last x =>
      have here := each x List.mem_cons_self
      rw [elements, tokens, List.flatMap_cons, List.flatMap_nil, List.append_nil, here]
  | more x others ih =>
      have here := each x List.mem_cons_self
      have there := ih fun y member => each y (List.mem_cons_of_mem x member)
      rw [elements, tokens, List.flatMap_cons, List.filterMap_append, here, there]
      rfl

theorem Phrase.reals_form (d : Phrase) : d.form.reals = d.tokens.filterMap Token.real? := by
  induction d with
  | nil | bool b | int n | real literal | string content | ref name => rfl
  | call function arguments each =>
      rw [form, itemForms_eq, Form.reals, formsReals_eq, List.flatMap_map,
        arguments.reals_tokens each]
      simp [tokens, itemTokens_eq, List.filterMap_cons, Token.real?]
  | list items each =>
      rw [form, itemForms_eq, Form.reals, formsReals_eq, List.flatMap_map, items.reals_tokens each]
      simp [tokens, itemTokens_eq, List.filterMap_cons, Token.real?]
  | map entries each =>
      have entry (e : Phrase × Phrase) (member : e ∈ entries.elements) :
          e.1.form.reals ++ e.2.form.reals = (entryWord e).filterMap Token.real? := by
        obtain ⟨key, value⟩ := each e member
        rw [entryWord, List.filterMap_append, key, value]
        rfl
      rw [form, entryForms_eq, Form.reals, entriesReals_eq, List.flatMap_map,
        entries.reals_tokens entry]
      simp [tokens, entryTokens_eq, List.filterMap_cons, Token.real?]

theorem FieldPhrase.reals_form (f : FieldPhrase) :
    f.form.2.reals = f.tokens.filterMap Token.real? := by
  rw [form, f.value.reals_form]
  rfl

theorem ItemPhrase.reals_form (i : ItemPhrase) :
    (i.form.fields.flatMap fun f => f.2.reals) = i.tokens.filterMap Token.real? := by
  have title : (i.name.toList.map Token.ident).filterMap Token.real? = [] := by
    cases i.name <;> rfl
  have fields := i.fields.reals_tokens fun f _ => f.reals_form
  simp [form, tokens, List.flatMap_map, fields, title, List.filterMap_cons, Token.real?]

def RealFree (text : String) : Prop :=
  ∀ tokens failures, lex text = (some tokens, failures) → ∀ t ∈ tokens, t.1.real? = none

theorem realFree_iff (text : String) : RealFree text ↔
    ((lex text).1.all fun tokens => tokens.all fun t => t.1.real?.isNone) = true := by
  unfold RealFree
  rcases lex text with ⟨tokens?, failures⟩
  cases tokens? with
  | none => simp
  | some tokens =>
      simp only [Option.all_some, List.all_eq_true, Option.isNone_iff_eq_none]
      constructor
      · intro free
        exact free tokens failures rfl
      · rintro none _ _ ⟨⟩
        exact none

instance (text : String) : Decidable (RealFree text) :=
  decidable_of_iff _ (realFree_iff text).symm

theorem fields_of_realFree {text : String} {items : List Item} (free : RealFree text)
    (parsed : parse text = .ok items) :
    ∀ i ∈ items, ∀ f ∈ i.fields, f.value.value.form.reals = [] := by
  obtain ⟨tokens, sound⟩ := lexed_of_parse parsed
  obtain ⟨derivations, derived, forms⟩ := derived_of_parse sound parsed
  have none (d : ItemPhrase) (member : d ∈ derivations) : d.tokens.filterMap Token.real? = [] := by
    refine List.filterMap_eq_nil_iff.mpr fun t inside => ?_
    have there : t ∈ tokens.map Prod.fst := derived ▸ List.mem_flatMap.mpr ⟨d, member, inside⟩
    obtain ⟨located, listed, rfl⟩ := List.mem_map.mp there
    exact free tokens [] sound located listed
  intro i member f inside
  have formed : i.form ∈ derivations.map ItemPhrase.form := forms ▸ List.mem_map_of_mem member
  obtain ⟨d, listed, same⟩ := List.mem_map.mp formed
  have reals := d.reals_form.trans (none d listed)
  rw [same] at reals
  exact List.flatMap_eq_nil_iff.mp reals (f.name.value, f.value.value.form)
    (List.mem_map_of_mem inside)

end StaticImage.Snapshot
