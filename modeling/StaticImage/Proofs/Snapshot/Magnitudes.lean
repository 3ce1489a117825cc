import StaticImage.Proofs.Snapshot.Constants

namespace StaticImage.Snapshot

open Parsing

namespace Lexeme

variable {after : List Char}

theorem first_of_int (n : Int) (more : List Char) :
    ∃ c ∈ ((toString n).toList ++ more).head?, c = '-' ∨ isDecimal c = true := by
  rw [toList_int]
  cases decide (n < 0) with
  | true => exact ⟨'-', rfl, Or.inl rfl⟩
  | false =>
      have whole := isWhole_toDigits n.natAbs
      generalize Nat.toDigits 10 n.natAbs = ds at whole
      cases whole with
      | zero => exact ⟨'0', rfl, Or.inr rfl⟩
      | digits c cs first => exact ⟨c, rfl, Or.inr first⟩

theorem decimalInteger_refuses {ds : List Char} (isWhole : IsWhole ds)
    (large : 1 <<< 63 ≤ numeral 10 0 ds) (ends : Ends after) :
    decimalInteger.Refuses (ds ++ after) := by
  refine (whole_takes isWhole ends.digit).check_refuses fun found same => ?_
  subst same
  cases read : magnitude "integer" 10 found with
  | error reason => exact ⟨reason, rfl⟩
  | ok n =>
      obtain ⟨rfl, small⟩ := (magnitude_eq_ok_iff (by decide) found n).mp read
      exact (Nat.not_lt.mpr large small).elim

theorem refuses_large {n : Int} (large : 1 <<< 63 ≤ n.natAbs) (ends : Ends after) :
    (((number.or string).or word).or punctuation).Refuses ((toString n).toList ++ after) := by
  have isWhole := isWhole_toDigits n.natAbs
  have decimal : decimalInteger.Refuses (Nat.toDigits 10 n.natAbs ++ after) :=
    decimalInteger_refuses isWhole (by rw [numeral_toDigits]; exact large) ends
  have integer : integer.Refuses ((toString n).toList ++ after) := by
    rw [toList_int, List.append_assoc]
    have magnitude := (hexInteger_refuses isWhole ends).or decimal
    exact ((sign_takes (decide (n < 0)) isWhole.unsigned).both_refuses magnitude).map _
  obtain ⟨c, first, kind⟩ := first_of_int n after
  have only (d : Char) (here : d ∈ ((toString n).toList ++ after).head?) : d = c :=
    Option.some.inj (here.symm.trans first)
  have string : string.Refuses ((toString n).toList ++ after) := by
    refine string_refuses fun here => ?_
    rw [← only '"' here] at kind
    rcases kind with same | digit
    · cases same
    · cases digit
  have word : word.Refuses ((toString n).toList ++ after) := by
    refine word_refuses fun d here => ?_
    rw [only d here, ← Bool.not_eq_true]
    intro start
    rcases kind with rfl | digit
    · cases start
    · rw [isDecimal_of_isWordStart start] at digit
      cases digit
  have punctuation : punctuation.Refuses ((toString n).toList ++ after) := by
    refine (Parser.refuses_oneOf fun d here member => ?_).map _
    rw [only d here] at member
    rcases kind with rfl | digit
    · simp at member
    · simp only [List.mem_cons, List.not_mem_nil, or_false] at member
      rcases member with rfl | rfl | rfl | rfl | rfl | rfl | rfl | rfl <;> cases digit
  exact ((((real_refuses_integer n ends).or integer).or string).or word).or punctuation

/-- Rows do not begin with a filler, if the only one that may not be lexical begins with none. -/
theorem closed_of_front {front back : List Printed} {row : Printed}
    (lexical : ∀ r ∈ front, r.1.Lexical)
    (first : ∃ c ∈ row.1.display.toList.head?, startsFiller c = false) :
    ∀ c ∈ ((front ++ row :: back).flatMap Printed.text).head?, startsFiller c = false := by
  cases front with
  | nil => exact closed_of_first first
  | cons r front => exact closed_of_first (first_of_lexical (lexical r List.mem_cons_self))

theorem not_givesAll {text : List Char} {front back : List Printed} {row : Printed} {i k : Nat}
    {located : List (Token × Span)}
    (left : (characters text).rest i = (front ++ row :: back).flatMap Printed.text)
    (lexical : ∀ r ∈ front, r.1.Lexical) (apart : (front ++ row :: back).IsChain Apart)
    (first : ∃ c ∈ row.1.display.toList.head?, startsFiller c = false)
    (stuck : ∀ j, (characters text).rest j = (row :: back).flatMap Printed.text →
      ∀ t m, ¬ locatedToken.Gives (characters text) j t m)
    (all : locatedToken.GivesAll (characters text) i located k) :
    (characters text).rest k ≠ [] := by
  induction front generalizing i located with
  | nil =>
      cases all with
      | nil =>
          intro ended
          obtain ⟨c, here, _⟩ := first
          rw [left, List.nil_append, List.flatMap_cons, Printed.text, List.append_assoc] at ended
          rw [(List.append_eq_nil_iff.mp ended).1] at here
          cases here
      | cons given => exact (stuck i left _ _ given).elim
  | cons r front ih =>
      have there (r' : Printed) (member : r' ∈ front) := lexical r' (List.mem_cons_of_mem r member)
      obtain ⟨next, apart⟩ := List.isChain_cons.mp apart
      rw [List.cons_append, List.flatMap_cons] at left
      obtain ⟨given, further, inside⟩ := row_given text r _ i left (lexical r List.mem_cons_self)
        (fun opened => ends_of_apart opened next) (closed_of_front there first)
      cases all with
      | nil =>
          intro ended
          have bound := Source.rest_eq_nil_iff.mp ended
          rw [Array.getElem?_eq_none_iff] at bound
          omega
      | cons given' _ _ others =>
          obtain ⟨_, rfl⟩ := given.unique given'
          exact ih (Source.rest_append left) there apart others

end Lexeme

open Lexeme

/-- Tokens as they are in texts, but for integers, which may be of any size. -/
def Token.Shown (t : Token) : Prop :=
  t.Lexical ∨ ∃ n, t = .int n

def Token.isTooLarge : Token → Bool
  | .int n => 1 <<< 63 ≤ n.natAbs
  | _ => false

theorem Token.Shown.lexical {t : Token} (shown : t.Shown) (small : t.isTooLarge = false) :
    t.Lexical := by
  rcases shown with lexical | ⟨n, rfl⟩
  · exact lexical
  · exact .int n (Nat.not_le.mp (of_decide_eq_false small))

/-- The first token that no text has is an integer that is too large, and the text is not lexed. -/
theorem not_lexed {lead : List Filler} {front back : List Printed} {row : Printed} {n : Int}
    (integer : row.1 = .int n) (large : 1 <<< 63 ≤ n.natAbs) (lexical : ∀ r ∈ front, r.1.Lexical)
    (apart : (front ++ row :: back).IsChain Apart) (tokens : List (Token × Span)) :
    lex (String.ofList (layout lead (front ++ row :: back))) ≠ (some tokens, []) := by
  intro sound
  obtain ⟨j, k, x, led, all, ended⟩ := taken_of_sound sound
  rw [String.toList_ofList] at led all ended
  have first : ∃ c ∈ row.1.display.toList.head?, startsFiller c = false := by
    obtain ⟨c, first, kind⟩ := first_of_int n []
    rw [List.append_nil] at first
    refine ⟨c, integer ▸ first, ?_⟩
    rcases kind with rfl | digit
    · rfl
    · exact startsFiller_of_isWordPart ((isWordPart_iff c).mpr (Or.inr digit))
  have start : (characters (layout lead (front ++ row :: back))).rest 0 =
      fillerText lead ++ (front ++ row :: back).flatMap Printed.text :=
    rest_characters _
  obtain ⟨_, _, led'⟩ := blanks_takes lead (closed_of_front lexical first) _ _ start
  obtain ⟨_, rfl⟩ := led.unique led'
  refine not_givesAll (Source.rest_append start) lexical apart first ?_ all ended
  intro i left t m given
  have ends : Ends (fillerText row.2 ++ back.flatMap Printed.text) :=
    ends_of_apart (by rw [integer]; rfl)
      (List.isChain_cons.mp (List.isChain_append.mp apart).2.1).1
  obtain ⟨_, _, here, _⟩ := given.of_first
  obtain ⟨u, taken, _⟩ := here.of_mapSpan
  refine (refuses_large large ends _ _ ?_).not_gives taken.of_recovering
  rw [left, List.flatMap_cons, Printed.text, List.append_assoc, integer]
  rfl

theorem lexed_iff_small (lead : List Filler) (rows : List Printed)
    (shown : ∀ row ∈ rows, row.1.Shown) (apart : rows.IsChain Apart) :
    (∃ tokens, lex (String.ofList (layout lead rows)) = (some tokens, [])) ↔
      ∀ row ∈ rows, row.1.isTooLarge = false := by
  constructor
  · rintro ⟨tokens, sound⟩
    -- the first integer that is too large is the one that is reached
    cases found : rows.find? fun row => row.1.isTooLarge with
    | none => simpa using found
    | some row =>
        obtain ⟨large, front, back, rfl, before⟩ := List.find?_eq_some_iff_append.mp found
        obtain ⟨n, integer, large⟩ : ∃ n, row.1 = .int n ∧ 1 <<< 63 ≤ n.natAbs := by
          cases same : row.1 with
          | int n =>
              rw [same] at large
              exact ⟨n, rfl, of_decide_eq_true large⟩
          | _ => simp [same, Token.isTooLarge] at large
        refine (not_lexed integer large (fun r member => ?_) apart tokens sound).elim
        exact (shown r (List.mem_append_left _ member)).lexical (by simpa using before r member)
  · intro small
    exact ⟨_, lex_of_lexical lead rows
      (fun row member => (shown row member).lexical (small row member)) apart⟩

theorem load_large (host : Host) (lead : List Filler) (rows : List Printed)
    (shown : ∀ row ∈ rows, row.1.Shown) (apart : rows.IsChain Apart)
    (large : ∃ row ∈ rows, row.1.isTooLarge = true) :
    ∃ errors, load host (String.ofList (layout lead rows)) = .error (.text errors) := by
  cases parsed : parse (String.ofList (layout lead rows)) with
  | error errors => exact ⟨errors, load_of_unparsed parsed⟩
  | ok items =>
      obtain ⟨row, member, large⟩ := large
      have small := (lexed_iff_small lead rows shown apart).mp (lexed_of_parse parsed) row member
      rw [large] at small
      cases small

theorem Token.Lexical.small {n : Int} (lexical : (Token.int n).Lexical) : n.natAbs < 1 <<< 63 := by
  generalize same : Token.int n = t at lexical
  cases lexical with
  | int m small => exact Token.int.inj same ▸ small
  | word cs =>
      unfold Token.ofWord at same
      split_ifs at same
  | mark t mark =>
      subst same
      simp [Token.marks] at mark
  | _ => cases same

inductive Form.Contains (n : Int) : Form → Prop where
  | here : Contains n (.int n)
  | argument {function : String} {arguments : List Form} {f : Form} (member : f ∈ arguments)
      (inside : Contains n f) : Contains n (.call function arguments)
  | element {items : List Form} {f : Form} (member : f ∈ items) (inside : Contains n f) :
      Contains n (.list items)
  | key {entries : List (Form × Form)} {e : Form × Form} (member : e ∈ entries)
      (inside : Contains n e.1) : Contains n (.map entries)
  | value {entries : List (Form × Form)} {e : Form × Form} (member : e ∈ entries)
      (inside : Contains n e.2) : Contains n (.map entries)

section

variable {n : Int} {place : Span}

theorem Phrase.mem_tokens_of_contains (d : Phrase) (contains : d.form.Contains n) :
    .int n ∈ d.tokens := by
  induction d with
  | int m =>
      cases contains
      exact List.mem_singleton_self _
  | call function arguments each =>
      rw [Phrase.form, itemForms_eq] at contains
      cases contains with
      | argument member inside =>
          obtain ⟨d, listed, rfl⟩ := List.mem_map.mp member
          have later := Series.mem_tokens listed (each d listed inside)
          simp only [Phrase.tokens, itemTokens_eq, List.mem_append, List.mem_cons, later, true_or,
            or_true]
  | list items each =>
      rw [Phrase.form, itemForms_eq] at contains
      cases contains with
      | element member inside =>
          obtain ⟨d, listed, rfl⟩ := List.mem_map.mp member
          have later := Series.mem_tokens listed (each d listed inside)
          simp only [Phrase.tokens, itemTokens_eq, List.mem_append, List.mem_cons, later, true_or,
            or_true]
  | map entries each =>
      rw [Phrase.form, entryForms_eq] at contains
      have whole (e : Phrase × Phrase) (listed : e ∈ entries.elements)
          (inside : .int n ∈ Phrase.entryWord e) : .int n ∈ (Phrase.map entries).tokens := by
        have later := Series.mem_tokens listed inside
        simp only [Phrase.tokens, entryTokens_eq, List.mem_append, List.mem_cons, later, true_or,
          or_true]
      cases contains with
      | key member inside =>
          obtain ⟨e, listed, rfl⟩ := List.mem_map.mp member
          exact whole e listed (List.mem_append_left _ ((each e listed).1 inside))
      | value member inside =>
          obtain ⟨e, listed, rfl⟩ := List.mem_map.mp member
          exact whole e listed
            (List.mem_append_right _ (List.mem_cons_of_mem _ ((each e listed).2 inside)))
  | _ => cases contains

mutual

theorem contains_of_evaluated (e : Expr) (span : Span)
    (member : ⟨.int n, place⟩ ∈ e.evaluated span) : e.form.Contains n :=
  match e with
  | .nil | .bool _ | .real _ | .string _ | .ref _ | .call _ [] | .call _ (_ :: _ :: _) => by
      unfold Expr.evaluated at member
      simp at member
  | .int m => by
      unfold Expr.evaluated at member
      obtain ⟨rfl, _⟩ : n = m ∧ place = span := by simpa using member
      exact .here
  | .call function [⟨argument, at_⟩] => by
      unfold Expr.evaluated at member
      rcases List.mem_cons.mp member with same | later
      · cases same
      · dsimp only at later
        split at later
        · exact .argument (by rw [formsOf]; exact List.mem_cons_self)
            (contains_of_evaluated argument at_ later)
        · cases later
  | .list items => by
      unfold Expr.evaluated at member
      rcases List.mem_cons.mp member with same | later
      · cases same
      · obtain ⟨f, listed, inside⟩ := contains_of_items items later
        exact .element listed inside
  | .map entries => by
      unfold Expr.evaluated at member
      rcases List.mem_cons.mp member with same | later
      · cases same
      · obtain ⟨f, listed, inside | inside⟩ := contains_of_entries entries later
        · exact .key listed inside
        · exact .value listed inside

theorem contains_of_items (items : List (Located Expr))
    (member : ⟨.int n, place⟩ ∈ itemsEvaluated items) : ∃ f ∈ formsOf items, f.Contains n :=
  match items with
  | [] => by
      unfold itemsEvaluated at member
      cases member
  | ⟨e, span⟩ :: items => by
      unfold itemsEvaluated at member
      rw [formsOf]
      rcases List.mem_append.mp member with here | there
      · exact ⟨_, List.mem_cons_self, contains_of_evaluated e span here⟩
      · obtain ⟨f, listed, inside⟩ := contains_of_items items there
        exact ⟨f, List.mem_cons_of_mem _ listed, inside⟩

theorem contains_of_entries (entries : List (Located Expr × Located Expr))
    (member : ⟨.int n, place⟩ ∈ entriesEvaluated entries) :
    ∃ f ∈ entryFormsOf entries, f.1.Contains n ∨ f.2.Contains n :=
  match entries with
  | [] => by
      unfold entriesEvaluated at member
      cases member
  | (⟨key, keySpan⟩, ⟨e, span⟩) :: entries => by
      unfold entriesEvaluated at member
      rw [entryFormsOf]
      rcases List.mem_append.mp member with here | there
      · have evaluated : ⟨.int n, place⟩ ∈ key.evaluated keySpan := by
          cases key with
          | ref name => cases here
          | _ => exact here
        exact ⟨_, List.mem_cons_self, Or.inl (contains_of_evaluated key keySpan evaluated)⟩
      · rcases List.mem_append.mp there with here | there
        · exact ⟨_, List.mem_cons_self, Or.inr (contains_of_evaluated e span here)⟩
        · obtain ⟨f, listed, inside⟩ := contains_of_entries entries there
          exact ⟨f, List.mem_cons_of_mem _ listed, inside⟩

end

theorem contains_of_elements {e : Expr} (member : ⟨.int n, place⟩ ∈ itemsEvaluated e.elements) :
    e.form.Contains n := by
  cases e with
  | list items =>
      obtain ⟨f, listed, inside⟩ := contains_of_items items member
      exact .element listed inside
  | _ =>
      unfold Expr.elements itemsEvaluated at member
      cases member

theorem contains_of_members {e : Located Expr}
    (member : ⟨.int n, place⟩ ∈ itemsEvaluated (membersOf e)) : e.value.form.Contains n := by
  obtain ⟨e, span⟩ := e
  cases e with
  | map entries =>
      obtain ⟨f, listed, inside⟩ := contains_of_items [⟨.map entries, span⟩] member
      rw [formsOf, formsOf, List.mem_singleton] at listed
      exact listed ▸ inside
  | _ =>
      unfold membersOf itemsEvaluated at member
      cases member

theorem Item.contains_of_evaluated {i : Item} {what : Option Declared}
    (member : ⟨.int n, place⟩ ∈ i.evaluated what) : ∃ f ∈ i.given, f.2.Contains n := by
  obtain ⟨f, given, member⟩ := List.mem_flatMap.mp member
  refine ⟨_, List.mem_map_of_mem given, ?_⟩
  have nothing : ¬ ⟨.int n, place⟩ ∈ itemsEvaluated [] := by simp [itemsEvaluated]
  rcases what with _ | ⟨_ | _ | _ | _⟩ <;> unfold Field.valued at member
  · exact (nothing member).elim
  all_goals
    dsimp only at member
    split at member
  · exact contains_of_elements member
  · exact (nothing member).elim
  · exact contains_of_elements member
  · exact (nothing member).elim
  · exact contains_of_members member
  · exact (nothing member).elim
  · exact contains_of_members member
  · exact (nothing member).elim

theorem small_of_parse {text : String} {items : List Item} (parsed : parse text = .ok items)
    {i : Item} (member : i ∈ items) {f : String × Form} (given : f ∈ i.given)
    (contains : f.2.Contains n) : n.natAbs < 1 <<< 63 := by
  obtain ⟨tokens, sound⟩ := lexed_of_parse parsed
  obtain ⟨derivations, derived, forms⟩ := derived_of_parse sound parsed
  have there : i.form ∈ derivations.map ItemPhrase.form := forms ▸ List.mem_map_of_mem member
  obtain ⟨d, listed, same⟩ := List.mem_map.mp there
  have field : f ∈ d.fields.elements.map FieldPhrase.form := by
    have fields := congrArg ItemForm.fields same
    change _ = i.given at fields
    rw [← fields] at given
    exact given
  obtain ⟨g, inside, rfl⟩ := List.mem_map.mp field
  have token : .int n ∈ g.tokens :=
    List.mem_cons_of_mem _ (List.mem_cons_of_mem _ (g.value.mem_tokens_of_contains contains))
  have whole : .int n ∈ d.tokens := by
    have later := Series.mem_tokens inside token
    simp only [ItemPhrase.tokens, List.mem_append, List.mem_cons, later, true_or, or_true]
  have all : .int n ∈ tokens.map Prod.fst :=
    derived ▸ List.mem_flatMap.mpr ⟨d, listed, whole⟩
  exact (Token.Producible.lexical ⟨text, tokens, [], sound, all⟩).small

end

end StaticImage.Snapshot
