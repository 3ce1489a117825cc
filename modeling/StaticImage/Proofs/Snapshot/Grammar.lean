import StaticImage.Proofs.Snapshot.Form
import StaticImage.Snapshot.Token

/-!
The grammar of snapshots. A phrase is a derivation of an expression, a tree that keeps every choice
the grammar leaves; its tokens are the word it derives. No word has two derivations.
-/

namespace StaticImage.Snapshot

/-- Elements with a comma behind each, but behind the last there may be none. -/
inductive Series (α : Type) where
  | none
  | last (x : α)
  | more (x : α) (others : Series α)

namespace Series

variable {α β : Type}

def elements : Series α → List α
  | none => []
  | last x => [x]
  | more x others => x :: others.elements

def tokens (word : α → List Token) : Series α → List Token
  | none => []
  | last x => word x
  | more x others => word x ++ .comma :: others.tokens word

def ofList : List α → Series α
  | [] => none
  | x :: xs => more x (ofList xs)

theorem elements_ofList (xs : List α) : (ofList xs).elements = xs := by
  induction xs with
  | nil => rfl
  | cons x xs ih => rw [ofList, elements, ih]

variable {word : α → List Token} {t : Token} {s : Series α}

theorem mem_tokens {x : α} (member : x ∈ s.elements) (inside : t ∈ word x) : t ∈ s.tokens word := by
  induction s with
  | none => cases member
  | last y => exact List.mem_singleton.mp member ▸ inside
  | more y others ih =>
      rw [tokens, List.mem_append, List.mem_cons]
      rcases List.mem_cons.mp member with rfl | later
      · exact Or.inl inside
      · exact Or.inr (Or.inr (ih later))

theorem mem_of_mem_tokens (member : t ∈ s.tokens word) :
    t = .comma ∨ ∃ x ∈ s.elements, t ∈ word x := by
  induction s with
  | none => cases member
  | last x => exact Or.inr ⟨x, List.mem_cons_self, member⟩
  | more x others ih =>
      rw [tokens, List.mem_append, List.mem_cons] at member
      rcases member with inside | same | later
      · exact Or.inr ⟨x, List.mem_cons_self, inside⟩
      · exact Or.inl same
      · refine (ih later).imp_right fun ⟨y, listed, inside⟩ => ?_
        exact ⟨y, List.mem_cons_of_mem x listed, inside⟩

end Series

inductive Phrase where
  | nil
  | bool (b : Bool)
  | int (n : Int)
  | real (literal : String)
  | string (content : String)
  | ref (name : String)
  | call (function : String) (arguments : Series Phrase)
  | list (items : Series Phrase)
  | map (entries : Series (Phrase × Phrase))

namespace Phrase

mutual

def tokens : Phrase → List Token
  | .nil => [.nil]
  | .bool b => [.bool b]
  | .int n => [.int n]
  | .real literal => [.real literal]
  | .string content => [.string content]
  | .ref name => [.ident name]
  | .call function arguments =>
    .ident function :: .openParen :: itemTokens arguments ++ [.closeParen]
  | .list items => .openBracket :: itemTokens items ++ [.closeBracket]
  | .map entries => .openBrace :: entryTokens entries ++ [.closeBrace]

def itemTokens : Series Phrase → List Token
  | .none => []
  | .last d => d.tokens
  | .more d others => d.tokens ++ .comma :: itemTokens others

def entryTokens : Series (Phrase × Phrase) → List Token
  | .none => []
  | .last (key, d) => key.tokens ++ .colon :: d.tokens
  | .more (key, d) others => (key.tokens ++ .colon :: d.tokens) ++ .comma :: entryTokens others

end

mutual

def form : Phrase → Form
  | .nil => .nil
  | .bool b => .bool b
  | .int n => .int n
  | .real literal => .real literal
  | .string content => .string content
  | .ref name => .ref name
  | .call function arguments => .call function (itemForms arguments)
  | .list items => .list (itemForms items)
  | .map entries => .map (entryForms entries)

def itemForms : Series Phrase → List Form
  | .none => []
  | .last d => [d.form]
  | .more d others => d.form :: itemForms others

def entryForms : Series (Phrase × Phrase) → List (Form × Form)
  | .none => []
  | .last (key, d) => [(key.form, d.form)]
  | .more (key, d) others => (key.form, d.form) :: entryForms others

end

@[induction_eliminator]
theorem induct {motive : Phrase → Prop} (nil : motive .nil) (bool : ∀ b, motive (.bool b))
    (int : ∀ n, motive (.int n)) (real : ∀ literal, motive (.real literal))
    (string : ∀ content, motive (.string content)) (ref : ∀ name, motive (.ref name))
    (call : ∀ function arguments, (∀ d ∈ arguments.elements, motive d) →
      motive (.call function arguments))
    (list : ∀ items, (∀ d ∈ items.elements, motive d) → motive (.list items))
    (map : ∀ entries, (∀ e ∈ entries.elements, motive e.1 ∧ motive e.2) → motive (.map entries))
    (d : Phrase) : motive d := by
  refine @Phrase.rec motive (fun items => ∀ d ∈ items.elements, motive d)
    (fun entries => ∀ e ∈ entries.elements, motive e.1 ∧ motive e.2)
    (fun e => motive e.1 ∧ motive e.2) nil bool int real string ref call list map
    ?_ ?_ ?_ ?_ ?_ ?_ ?_ d
  · intro d member
    cases member
  · intro d here other member
    exact List.mem_singleton.mp member ▸ here
  · intro d others here there other member
    rcases List.mem_cons.mp member with rfl | inside
    · exact here
    · exact there other inside
  · intro e member
    cases member
  · intro e here other member
    exact List.mem_singleton.mp member ▸ here
  · intro e others here there other member
    rcases List.mem_cons.mp member with rfl | inside
    · exact here
    · exact there other inside
  · intro key d here there
    exact ⟨here, there⟩

def entryWord (e : Phrase × Phrase) : List Token :=
  e.1.tokens ++ .colon :: e.2.tokens

theorem itemTokens_eq (items : Series Phrase) : itemTokens items = items.tokens tokens := by
  induction items with
  | none => rfl
  | last d => rfl
  | more d others ih => rw [itemTokens, ih, Series.tokens]

theorem entryTokens_eq (entries : Series (Phrase × Phrase)) :
    entryTokens entries = entries.tokens entryWord := by
  induction entries with
  | none => rfl
  | last e => rfl
  | more e others ih => rw [entryTokens, ih, Series.tokens, entryWord]

theorem itemForms_eq (items : Series Phrase) : itemForms items = items.elements.map form := by
  induction items with
  | none => rfl
  | last d => rfl
  | more d others ih => rw [itemForms, ih, Series.elements, List.map_cons]

theorem entryForms_eq (entries : Series (Phrase × Phrase)) :
    entryForms entries = entries.elements.map fun e => (e.1.form, e.2.form) := by
  induction entries with
  | none => rfl
  | last e => rfl
  | more e others ih => rw [entryForms, ih, Series.elements, List.map_cons]

end Phrase

def Token.isLiteral : Token → Bool
  | .nil | .bool _ | .int _ | .real _ | .string _ => true
  | _ => false

def Token.opens : Token → Bool
  | .ident _ | .openBracket | .openBrace => true
  | t => t.isLiteral

def Opens (word : List Token) : Prop :=
  ∃ t ∈ word.head?, t.opens = true

theorem Opens.append {word : List Token} (opens : Opens word) (more : List Token) :
    Opens (word ++ more) := by
  cases word with
  | nil =>
      obtain ⟨t, member, _⟩ := opens
      cases member
  | cons t rest => exact opens

theorem Opens.ne_cons {word : List Token} (opens : Opens word) {t : Token} (other : t.opens = false)
    (more : List Token) : word ≠ t :: more := by
  rintro rfl
  obtain ⟨u, member, begins⟩ := opens
  cases member
  rw [other] at begins
  cases begins

theorem Phrase.tokens_open (d : Phrase) : Opens d.tokens := by
  cases d <;> exact ⟨_, rfl, rfl⟩

/-- Where something other than an opening parenthesis follows, a word has one derivation and ends
at one place. -/
def Unambiguous {α : Type} (word : α → List Token) (x : α) : Prop :=
  ∀ (y : α) (after after' : List Token), Token.openParen ∉ after.head? →
    Token.openParen ∉ after'.head? → word x ++ after = word y ++ after' → x = y ∧ after = after'

namespace Series

section

variable {α : Type} {word : α → List Token} {closing : Token}

theorem unambiguous (opens : ∀ x, Opens (word x)) (closes : closing.opens = false)
    (apart : closing ≠ .comma) (plain : closing ≠ .openParen) (s s' : Series α)
    (each : ∀ x ∈ s.elements, Unambiguous word x) (after after' : List Token)
    (equal : s.tokens word ++ closing :: after = s'.tokens word ++ closing :: after') :
    s = s' ∧ after = after' := by
  have behind (t : Token) (other : t ≠ .openParen) (more : List Token) :
      Token.openParen ∉ (t :: more).head? := by
    simpa using other
  have closed (more : List Token) := behind closing plain more
  have comma (more : List Token) := behind .comma (by decide) more
  induction s generalizing s' with
  | none =>
      cases s' with
      | none => exact ⟨rfl, (List.cons.inj equal).2⟩
      | last y => exact (((opens y).append _).ne_cons closes _ equal.symm).elim
      | more y others' =>
          exact ((((opens y).append _).append _).ne_cons closes _ equal.symm).elim
  | last x =>
      have alone := each x List.mem_cons_self
      cases s' with
      | none => exact (((opens x).append _).ne_cons closes _ equal).elim
      | last y =>
          obtain ⟨rfl, tails⟩ := alone y _ _ (closed _) (closed _) equal
          exact ⟨rfl, (List.cons.inj tails).2⟩
      | more y others' =>
          simp only [tokens, List.append_assoc, List.cons_append] at equal
          obtain ⟨_, tails⟩ := alone y _ _ (closed _) (comma _) equal
          exact (apart (List.cons.inj tails).1).elim
  | more x others ih =>
      have alone := each x List.mem_cons_self
      cases s' with
      | none => exact ((((opens x).append _).append _).ne_cons closes _ equal).elim
      | last y =>
          simp only [tokens, List.append_assoc, List.cons_append] at equal
          obtain ⟨_, tails⟩ := alone y _ _ (comma _) (closed _) equal
          exact (apart (List.cons.inj tails).1.symm).elim
      | more y others' =>
          simp only [tokens, List.append_assoc, List.cons_append] at equal
          obtain ⟨rfl, tails⟩ := alone y _ _ (comma _) (comma _) equal
          have later (z : α) (member : z ∈ others.elements) :=
            each z (List.mem_cons_of_mem x member)
          obtain ⟨rfl, same⟩ := ih others' later (List.cons.inj tails).2
          exact ⟨rfl, same⟩

end

end Series

namespace Phrase

theorem entryWord_opens (e : Phrase × Phrase) : Opens (entryWord e) :=
  e.1.tokens_open.append _

theorem entryWord_unambiguous {e : Phrase × Phrase} (key : Unambiguous tokens e.1)
    (value : Unambiguous tokens e.2) : Unambiguous entryWord e := by
  intro f after after' follows follows' equal
  simp only [entryWord, List.append_assoc, List.cons_append] at equal
  obtain ⟨keys, tails⟩ := key f.1 _ _ (by simp) (by simp) equal
  obtain ⟨values, same⟩ := value f.2 _ _ follows follows' (List.cons.inj tails).2
  exact ⟨Prod.ext keys values, same⟩

theorem tokens_unambiguous (d : Phrase) : Unambiguous tokens d := by
  induction d with
  | nil | bool b | int n | real literal | string content =>
      intro d' after after' _ _ equal
      cases d' <;> simp_all [tokens]
  | ref name =>
      intro d' after after' follows _ equal
      cases d' <;> simp_all [tokens]
  | call function arguments each =>
      intro d' after after' _ follows equal
      cases d' with
      | ref name =>
          simp only [tokens, List.cons_append, List.nil_append] at equal
          exact (follows (by rw [← (List.cons.inj equal).2]; rfl)).elim
      | call function' arguments' =>
          simp only [tokens, itemTokens_eq, List.cons_append, List.append_assoc, List.nil_append,
            List.cons.injEq, Token.ident.injEq, true_and] at equal
          obtain ⟨rfl, equal⟩ := equal
          obtain ⟨rfl, same⟩ := Series.unambiguous tokens_open rfl (by decide) (by decide)
            arguments arguments' each after after' equal
          exact ⟨rfl, same⟩
      | _ => simp [tokens] at equal
  | list items each =>
      intro d' after after' _ _ equal
      cases d' with
      | list items' =>
          simp only [tokens, itemTokens_eq, List.cons_append, List.append_assoc, List.nil_append,
            List.cons.injEq, true_and] at equal
          obtain ⟨rfl, same⟩ := Series.unambiguous tokens_open rfl (by decide) (by decide)
            items items' each after after' equal
          exact ⟨rfl, same⟩
      | _ => simp [tokens] at equal
  | map entries each =>
      intro d' after after' _ _ equal
      cases d' with
      | map entries' =>
          simp only [tokens, entryTokens_eq, List.cons_append, List.append_assoc, List.nil_append,
            List.cons.injEq, true_and] at equal
          have alone (e : Phrase × Phrase) (member : e ∈ entries.elements) :=
            entryWord_unambiguous (each e member).1 (each e member).2
          obtain ⟨rfl, same⟩ := Series.unambiguous entryWord_opens rfl (by decide) (by decide)
            entries entries' alone after after' equal
          exact ⟨rfl, same⟩
      | _ => simp [tokens] at equal

end Phrase

structure FieldPhrase where
  name : String
  value : Phrase

structure ItemPhrase where
  kind : String
  name : Option String
  fields : Series FieldPhrase

def FieldPhrase.tokens (f : FieldPhrase) : List Token :=
  .ident f.name :: .colon :: f.value.tokens

namespace ItemPhrase

def tokens (i : ItemPhrase) : List Token :=
  .ident i.kind :: i.name.toList.map .ident ++
    .openBrace :: i.fields.tokens FieldPhrase.tokens ++ [.closeBrace]

end ItemPhrase

theorem FieldPhrase.tokens_open (f : FieldPhrase) : Opens f.tokens :=
  ⟨_, rfl, rfl⟩

theorem FieldPhrase.tokens_unambiguous (f : FieldPhrase) : Unambiguous tokens f := by
  intro g after after' follows follows' equal
  simp only [tokens, List.cons_append, List.cons.injEq, Token.ident.injEq, true_and] at equal
  obtain ⟨names, equal⟩ := equal
  obtain ⟨values, same⟩ := f.value.tokens_unambiguous g.value after after' follows follows' equal
  cases f
  cases g
  cases names
  cases values
  exact ⟨rfl, same⟩

theorem ItemPhrase.tokens_unambiguous (i j : ItemPhrase) (after after' : List Token)
    (equal : i.tokens ++ after = j.tokens ++ after') : i = j ∧ after = after' := by
  obtain ⟨kind, name, fields⟩ := i
  obtain ⟨kind', name', fields'⟩ := j
  have told (word word' : List Token)
      (equal : name.toList.map Token.ident ++ .openBrace :: word =
        name'.toList.map Token.ident ++ .openBrace :: word') : name = name' ∧ word = word' := by
    cases name <;> cases name' <;> simp_all
  simp only [tokens, List.cons_append, List.append_assoc, List.nil_append, List.cons.injEq,
    Token.ident.injEq] at equal
  obtain ⟨rfl, names⟩ := equal
  obtain ⟨rfl, bodies⟩ := told _ _ names
  obtain ⟨rfl, same⟩ := Series.unambiguous FieldPhrase.tokens_open rfl (by decide) (by decide)
    fields fields' (fun f _ => f.tokens_unambiguous) after after' bodies
  exact ⟨rfl, same⟩

theorem items_unambiguous (items others : List ItemPhrase)
    (equal : items.flatMap ItemPhrase.tokens = others.flatMap ItemPhrase.tokens) :
    items = others := by
  induction items generalizing others with
  | nil =>
      cases others with
      | nil => rfl
      | cons j others => simp [ItemPhrase.tokens] at equal
  | cons i items ih =>
      cases others with
      | nil => simp [ItemPhrase.tokens] at equal
      | cons j others =>
          rw [List.flatMap_cons, List.flatMap_cons] at equal
          obtain ⟨rfl, tails⟩ := i.tokens_unambiguous j _ _ equal
          rw [ih others tails]

end StaticImage.Snapshot
