import Mathlib.Data.List.Chain
import StaticImage.Proofs.Snapshot.Printing

namespace StaticImage.Snapshot

open Parsing Lexeme

abbrev Printed := Token × List Filler

def Printed.text (row : Printed) : List Char :=
  row.1.display.toList ++ fillerText row.2

def layout (lead : List Filler) (rows : List Printed) : List Char :=
  fillerText lead ++ rows.flatMap Printed.text

def placed : (start : Nat) → List Printed → List (Token × Span)
  | _, [] => []
  | start, row :: rows =>
    (row.1, ⟨start, start + row.1.display.toList.length⟩) :: placed (start + row.text.length) rows

theorem map_placed (start : Nat) (rows : List Printed) :
    (placed start rows).map Prod.fst = rows.map Prod.fst := by
  induction rows generalizing start with
  | nil => rfl
  | cons row rows ih => rw [placed, List.map_cons, List.map_cons, ih]

theorem text_of_placed (front : List Char) (rows : List Printed) :
    ∀ located ∈ placed front.length rows,
      ((front ++ rows.flatMap Printed.text).drop located.2.start).take
        (located.2.stop - located.2.start) = located.1.display.toList := by
  induction rows generalizing front with
  | nil => simp [placed]
  | cons row rows ih =>
      intro located member
      rcases List.mem_cons.mp member with rfl | inside
      · rw [List.drop_left, Nat.add_sub_cancel_left, List.flatMap_cons, Printed.text,
          List.append_assoc, List.take_left]
      · rw [← List.length_append] at inside
        rw [List.flatMap_cons, ← List.append_assoc]
        exact ih (front ++ row.text) located inside

theorem rest_characters (text : List Char) : (characters text).rest 0 = text := by
  simp only [Source.rest, characters, List.drop_zero, List.map_map]
  exact List.zipIdx_map_fst 0 text

theorem spanAt_characters (text : List Char) {i : Nat} (inside : i < text.length) :
    (characters text).spanAt i = ⟨i, i + 1⟩ := by
  simp [Source.spanAt, characters, inside]

theorem spanFrom_characters (text : List Char) {i k : Nat} (further : i < k)
    (inside : k ≤ text.length) : (characters text).spanFrom i k = ⟨i, k⟩ := by
  have last : max (k - 1) i = k - 1 := by omega
  rw [Source.spanFrom, last, spanAt_characters text (by omega), spanAt_characters text (by omega),
    Nat.sub_add_cancel (by omega)]

theorem length_characters (text : List Char) : (characters text).items.size = text.length := by
  simp [characters]

namespace Lexeme

/-- Between neighbours stands a filler, or one of them shows where it begins and ends. -/
def Apart (row next : Printed) : Prop :=
  row.2 ≠ [] ∨ isClosed row.1 = true ∨ isClosed next.1 = true

/-- Fillers between neighbours hold them apart: only behind the last one there may be none. -/
theorem isChain_apart {rows : List Printed} (filled : ∀ row ∈ rows.dropLast, row.2 ≠ []) :
    rows.IsChain Apart := by
  induction rows with
  | nil => exact .nil
  | cons row rows ih =>
      cases rows with
      | nil => exact .singleton row
      | cons next rows =>
          have here : Apart row next := Or.inl (filled row List.mem_cons_self)
          exact .cons_cons here (ih fun r member => filled r (List.mem_cons_of_mem row member))

theorem ends_of_isClosed {t : Token} (closed : isClosed t = true) (more : List Char) :
    Ends (t.display.toList ++ more) := by
  cases t with
  | string content => exact ⟨by simp [Token.display, Text.quote, isWordPart], by
      simp [Token.display, Text.quote]⟩
  | ident _ | nil | bool _ | int _ | real _ => cases closed
  | _ => exact ⟨by simp [Token.display, isWordPart], by simp [Token.display]⟩

theorem ends_of_apart {row : Printed} {rows : List Printed} (opened : isClosed row.1 = false)
    (apart : ∀ next ∈ rows.head?, Apart row next) :
    Ends (fillerText row.2 ++ rows.flatMap Printed.text) := by
  obtain ⟨t, fillers⟩ := row
  cases fillers with
  | nil =>
      cases rows with
      | nil => exact .of_fillers (by simp [fillerText])
      | cons next rows =>
          rcases apart next rfl with filled | here | there
          · exact (filled rfl).elim
          · exact (Bool.eq_false_iff.mp opened here).elim
          · rw [fillerText, List.flatMap_nil, List.nil_append, List.flatMap_cons, Printed.text,
              List.append_assoc]
            exact ends_of_isClosed there _
  | cons f fillers =>
      refine .of_fillers fun d here => ?_
      obtain ⟨c, first, starts⟩ := f.head?_text
      rw [fillerText, List.flatMap_cons, List.append_assoc, List.head?_append, first] at here
      cases here
      exact starts

theorem closed_of_first {row : Printed} {rows : List Printed}
    (first : ∃ c ∈ row.1.display.toList.head?, startsFiller c = false) :
    ∀ c ∈ ((row :: rows).flatMap Printed.text).head?, startsFiller c = false := by
  obtain ⟨c, first, closed⟩ := first
  intro d here
  rw [List.flatMap_cons, Printed.text, List.append_assoc, List.head?_append, first] at here
  cases here
  exact closed

theorem closed_of_lexical {rows : List Printed} (lexical : ∀ row ∈ rows, row.1.Lexical) :
    ∀ c ∈ (rows.flatMap Printed.text).head?, startsFiller c = false := by
  cases rows with
  | nil => simp
  | cons row rows => exact closed_of_first (first_of_lexical (lexical row List.mem_cons_self))

theorem display_ne_nil {t : Token} (lexical : t.Lexical) : t.display.toList ≠ [] := by
  obtain ⟨c, first, _⟩ := first_of_lexical lexical
  intro empty
  rw [empty] at first
  cases first

theorem row_given (text : List Char) (row : Printed) (back : List Char) (i : Nat)
    (left : (characters text).rest i = row.text ++ back) (lexical : row.1.Lexical)
    (ends : isClosed row.1 = false → Ends (fillerText row.2 ++ back))
    (closed : ∀ c ∈ back.head?, startsFiller c = false) :
    locatedToken.Gives (characters text) i (row.1, ⟨i, i + row.1.display.toList.length⟩)
        (i + row.text.length) ∧
      i < i + row.text.length ∧ i + row.text.length ≤ (characters text).items.size := by
  have shown := List.length_pos_iff.mpr (display_ne_nil lexical)
  have size : row.text.length = row.1.display.toList.length + (fillerText row.2).length :=
    List.length_append
  have count := length_characters text
  have length := (characters text).length_rest i
  rw [left, List.length_append] at length
  rw [Printed.text, List.append_assoc] at left
  obtain ⟨t, rfl, gives⟩ := token_takes lexical ends _ _ left
  obtain ⟨_, _, gap⟩ := blanks_takes row.2 closed _ _ (Source.rest_append left)
  have given := (gives.mapSpan fun t span => (t, span)).first gap
  rw [spanFrom_characters text (by omega) (by omega), Nat.add_assoc, ← size] at given
  exact ⟨given, by omega, by omega⟩

theorem rows_given (text : List Char) (rows : List Printed) (i : Nat)
    (left : (characters text).rest i = rows.flatMap Printed.text)
    (lexical : ∀ row ∈ rows, row.1.Lexical) (apart : rows.IsChain Apart) :
    locatedToken.GivesAll (characters text) i (placed i rows)
      (i + (rows.flatMap Printed.text).length) := by
  induction rows generalizing i with
  | nil => exact .nil i
  | cons row rows ih =>
      have there (r : Printed) (member : r ∈ rows) := lexical r (List.mem_cons_of_mem row member)
      obtain ⟨next, apart⟩ := List.isChain_cons.mp apart
      rw [List.flatMap_cons] at left
      obtain ⟨given, further, inside⟩ := row_given text row _ i left
        (lexical row List.mem_cons_self) (fun opened => ends_of_apart opened next)
        (closed_of_lexical there)
      have later := ih (i + row.text.length) (Source.rest_append left) there apart
      rw [List.flatMap_cons, List.length_append, ← Nat.add_assoc]
      exact .cons given further inside later

theorem token_refuses_nil : token.Refuses [] := by
  have number : number.Refuses [] := number_refuses (by simp) (by simp)
  have string : string.Refuses [] := string_refuses (by simp)
  have word : word.Refuses [] := word_refuses (by simp)
  have punctuation : punctuation.Refuses [] := (Parser.refuses_oneOf (by simp)).map _
  exact Parser.Refuses.recovering (((number.or string).or word).or punctuation)

end Lexeme

theorem lex_of_lexical (lead : List Filler) (rows : List Printed)
    (lexical : ∀ row ∈ rows, row.1.Lexical) (apart : rows.IsChain Apart) :
    lex (String.ofList (layout lead rows)) =
      (some (placed (fillerText lead).length rows), []) := by
  have start : (characters (layout lead rows)).rest 0 =
      fillerText lead ++ rows.flatMap Printed.text :=
    rest_characters _
  obtain ⟨_, _, led⟩ := blanks_takes lead (closed_of_lexical lexical) _ _ start
  have left := Source.rest_append start
  have all := rows_given (layout lead rows) rows _ left lexical apart
  have ended := Source.rest_append (left.trans (List.append_nil _).symm)
  have stops := (((token_refuses_nil _ _ ended).mapSpan fun t span => (t, span)).both blanks).map
    Prod.fst
  have whole := (led.second (all.many stops)).first (Parser.gives_ending ended)
  rw [Nat.zero_add] at whole
  rw [lex, String.toList_ofList]
  exact whole.run

/-- The tokens that texts have are told by their shape: each is lexed from the text it is shown
as. -/
theorem producible_iff_lexical (t : Token) : t.Producible ↔ t.Lexical := by
  refine ⟨Token.Producible.lexical, fun lexical => ?_⟩
  have lexed := lex_of_lexical [] [(t, [])] (fun row member => ?_) (.singleton _)
  · exact ⟨_, _, _, lexed, List.mem_cons_self⟩
  · rw [List.mem_singleton.mp member]
    exact lexical

/-- Lexing undoes printing: tokens that texts have, shown with fillers between neighbours, are lexed
without a failure as the same tokens in the same order, each with the span of its own text. -/
theorem lex_layout (lead : List Filler) (rows : List Printed)
    (producible : ∀ row ∈ rows, row.1.Producible) (apart : ∀ row ∈ rows.dropLast, row.2 ≠ []) :
    lex (String.ofList (layout lead rows)) =
        (some (placed (fillerText lead).length rows), []) ∧
      (placed (fillerText lead).length rows).map Prod.fst = rows.map Prod.fst ∧
      ∀ located ∈ placed (fillerText lead).length rows,
        ((layout lead rows).drop located.2.start).take (located.2.stop - located.2.start) =
          located.1.display.toList := by
  have lexed := lex_of_lexical lead rows (fun row member => (producible row member).lexical)
    (isChain_apart apart)
  exact ⟨lexed, map_placed _ rows, text_of_placed (fillerText lead) rows⟩

def mixedLead : List Filler :=
  [.line ['/', '*'] (by simp [endsLine, Text.isLineEnd]) (.other '\r' rfl), .blank '\n' rfl]

def mixedRows : List Printed :=
  [(.int (-7), [.block ['*', '"'] (by decide)]), (.ident "e5", [.blank '\u00a0' rfl]),
    (.real "0.e-5", [.line [] (by simp) .feed]), (.string "\"/*\n", [])]

theorem lex_mixed_layout :
    (∀ row ∈ mixedRows, row.1.Producible) ∧ (∀ row ∈ mixedRows.dropLast, row.2 ≠ []) ∧
      lex (String.ofList (layout mixedLead mixedRows)) = (some (placed 6 mixedRows), []) := by
  have found (t : Token) (text : String)
      (checked : ((lex text).1.any fun tokens => decide (t ∈ tokens.map Prod.fst)) = true) :
      t.Producible := by
    obtain ⟨tokens, lexed, member⟩ := (Option.any_eq_true _ _).mp checked
    exact ⟨text, tokens, _, Prod.ext lexed rfl, of_decide_eq_true member⟩
  have producible : ∀ row ∈ mixedRows, row.1.Producible := by
    simp only [mixedRows, List.forall_mem_cons, List.not_mem_nil, false_imp_iff, implies_true,
      and_true]
    exact ⟨found _ "-7" (by decide +kernel), found _ "e5" (by decide +kernel),
      found _ "0.e-5" (by decide +kernel), found _ "\"\\\"/*\\n\"" (by decide +kernel)⟩
  have apart : ∀ row ∈ mixedRows.dropLast, row.2 ≠ [] := by simp [mixedRows]
  exact ⟨producible, apart, (lex_layout mixedLead mixedRows producible apart).1⟩

end StaticImage.Snapshot
