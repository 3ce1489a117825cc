import StaticImage.Proofs.Parsing.Yielding
import StaticImage.Snapshot.Lexeme

namespace StaticImage.Snapshot

open Parsing

namespace Lexeme

def AreDigits (ds : List Char) : Prop :=
  ds ≠ [] ∧ ∀ d ∈ ds, isDecimal d = true

inductive IsWhole : List Char → Prop where
  | zero : IsWhole ['0']
  | digits (c : Char) (cs : List Char) (first : isDecimal c = true) (other : c ≠ '0')
      (rest : ∀ d ∈ cs, isDecimal d = true) : IsWhole (c :: cs)

inductive IsExponent : List Char → Prop where
  | intro (mark : Char) (sign? : Option Char) (ds : List Char) (marks : mark ∈ ['e', 'E'])
      (signs : ∀ c ∈ sign?, c ∈ ['+', '-']) (digits : AreDigits ds) :
      IsExponent (mark :: sign?.toList ++ ds)

inductive IsWord : List Char → Prop where
  | intro (c : Char) (cs : List Char) (start : isWordStart c = true)
      (parts : ∀ d ∈ cs, isWordPart d = true) : IsWord (c :: cs)

/-- The literal of a real: only the digits in front of the point are always there. -/
structure RealLiteral where
  negative : Bool
  whole : List Char
  fraction : Option (List Char)
  exponent : Option (List Char)
  isWhole : IsWhole whole
  areDigits : ∀ ds ∈ fraction, AreDigits ds
  isExponent : ∀ es ∈ exponent, IsExponent es

def RealLiteral.text (r : RealLiteral) : List Char :=
  minus r.negative ++ r.whole ++ ['.'] ++ r.fraction.getD [] ++ r.exponent.getD []

end Lexeme

open Lexeme

def Token.marks : List Token :=
  [.openParen, .closeParen, .openBrace, .closeBrace, .openBracket, .closeBracket, .colon, .comma]

inductive Token.Lexical : Token → Prop where
  | word (cs : List Char) (word : IsWord cs) : Lexical (.ofWord (String.ofList cs))
  | int (n : Int) (small : n.natAbs < 1 <<< 63) : Lexical (.int n)
  | real (literal : RealLiteral) : Lexical (.real (String.ofList literal.text))
  | string (content : String) : Lexical (.string content)
  | mark (t : Token) (mark : t ∈ marks) : Lexical t

namespace Lexeme

variable {s : Source Char} {i k : Nat}

theorem passed_of_yieldsAll {test : Char → Bool} {cs : List Char}
    (all : (Parser.filter test).YieldsAll s i cs k) : ∀ c ∈ cs, test c = true := by
  induction all with
  | nil => simp
  | cons first others ih =>
      intro c member
      rcases List.mem_cons.mp member with rfl | inside
      · exact first.of_filter.1
      · exact ih c inside

theorem areDigits_of_yields {ds : List Char} (yields : digits.Yields s i ds k) : AreDigits ds := by
  obtain ⟨nonempty, all⟩ := yields.of_several
  exact ⟨nonempty, passed_of_yieldsAll all⟩

theorem isWhole_of_yields {ds : List Char} (yields : whole.Yields s i ds k) : IsWhole ds := by
  rcases yields.of_or with nonzero | zero
  · obtain ⟨⟨c, cs⟩, both, rfl⟩ := nonzero.of_map
    obtain ⟨j, first, rest⟩ := both.of_both
    obtain ⟨passed, _⟩ := first.of_filter
    obtain ⟨digit, other⟩ := Bool.and_eq_true_iff.mp passed
    exact .digits c cs digit (by simpa using other) (passed_of_yieldsAll rest.of_many)
  · obtain ⟨c, one, rfl⟩ := zero.of_map
    rw [one.of_one.1]
    exact .zero

theorem isExponent_of_yields {es : List Char} (yields : exponent.Yields s i es k) :
    IsExponent es := by
  obtain ⟨⟨⟨mark, sign?⟩, ds⟩, both, rfl⟩ := yields.of_map
  obtain ⟨j, front, digits⟩ := both.of_both
  obtain ⟨m, marked, signed⟩ := front.of_both
  refine .intro mark sign? ds marked.of_oneOf.1 (fun c given => ?_) (areDigits_of_yields digits)
  rcases signed.of_optional with ⟨x, rfl, one⟩ | ⟨rfl, _⟩
  · cases given
    exact one.of_oneOf.1
  · cases given

def numeral (base start : Nat) (ds : List Char) : Nat :=
  ds.foldl (fun n c => n * base + Hex.value c) start

theorem le_numeral {base : Nat} (positive : 0 < base) (start : Nat) (ds : List Char) :
    start ≤ numeral base start ds := by
  induction ds generalizing start with
  | nil => exact Nat.le_refl start
  | cons c ds ih =>
      have longer := Nat.le_mul_of_pos_right start positive
      have further := ih (start * base + Hex.value c)
      exact Nat.le_trans (by omega) further

theorem magnitude_eq_ok_iff {kind : String} {base : Nat} (positive : 0 < base) (ds : List Char)
    (n : Nat) :
    magnitude kind base ds = .ok n ↔ numeral base 0 ds = n ∧ n < 1 <<< 63 := by
  have from_start (start : Nat) (small : start < 1 <<< 63) :
      ds.foldlM (fun n c =>
        let n := n * base + Hex.value c
        if n < 1 <<< 63 then Except.ok n
        else .error ("invalid " ++ kind ++ " literal: number too large to fit in target type"))
        start = .ok n ↔ numeral base start ds = n ∧ n < 1 <<< 63 := by
    induction ds generalizing start with
    | nil =>
        constructor
        · rintro ⟨⟩
          exact ⟨rfl, small⟩
        · rintro ⟨rfl, _⟩
          rfl
    | cons c ds ih =>
        rw [List.foldlM_cons]
        by_cases fits : start * base + Hex.value c < 1 <<< 63
        · rw [if_pos fits]
          exact ih _ fits
        · rw [if_neg fits]
          have least := le_numeral positive (start * base + Hex.value c) ds
          constructor
          · rintro ⟨⟩
          · rintro ⟨same, bound⟩
            change numeral base (start * base + Hex.value c) ds = n at same
            omega
  exact from_start 0 (by decide)

theorem small_of_check {kind : String} {base : Nat} (positive : 0 < base) {p : Lexer (List Char)}
    {n : Nat} (yields : (p.check (magnitude kind base)).Yields s i n k) : n < 1 <<< 63 := by
  obtain ⟨ds, _, read⟩ := yields.of_check
  exact ((magnitude_eq_ok_iff positive ds n).mp read).2

theorem lexical_of_real {t : Token} (yields : real.Yields s i t k) : t.Lexical := by
  obtain ⟨⟨⟨⟨negative, ds⟩, fraction⟩, exponent⟩, parts, rfl⟩ := yields.of_map
  obtain ⟨_, front, last⟩ := parts.of_both
  obtain ⟨_, front, middle⟩ := front.of_both
  obtain ⟨_, _, front, _⟩ := front.of_first
  obtain ⟨_, _, first⟩ := front.of_both
  refine .real ⟨negative, ds, fraction, exponent, isWhole_of_yields first, ?_, ?_⟩
  · rintro ds' given
    rcases middle.of_optional with ⟨_, same, digits⟩ | ⟨none, _⟩
    · cases given.symm.trans same
      exact areDigits_of_yields digits
    · cases given.symm.trans none
  · rintro es given
    rcases last.of_optional with ⟨_, same, digits⟩ | ⟨none, _⟩
    · cases given.symm.trans same
      exact isExponent_of_yields digits
    · cases given.symm.trans none

theorem lexical_of_integer {t : Token} (yields : integer.Yields s i t k) : t.Lexical := by
  obtain ⟨⟨negative, n⟩, both, rfl⟩ := yields.of_map
  obtain ⟨j, _, magnitude⟩ := both.of_both
  have small : n < 1 <<< 63 := by
    rcases magnitude.of_or with hex | decimal
    · exact small_of_check (by decide) hex
    · exact small_of_check (by decide) decimal
  refine .int _ ?_
  split
  · rwa [Int.natAbs_neg, Int.natAbs_natCast]
  · rwa [Int.natAbs_natCast]

theorem lexical_of_word {t : Token} (yields : word.Yields s i t k) : t.Lexical := by
  obtain ⟨⟨c, cs⟩, both, rfl⟩ := yields.of_map
  obtain ⟨j, first, rest⟩ := both.of_both
  exact .word (c :: cs) (.intro c cs first.of_filter.1 (passed_of_yieldsAll rest.of_many))

theorem lexical_of_string {t : Token} (yields : string.Yields s i t k) : t.Lexical := by
  obtain ⟨content, _, rfl⟩ := yields.of_labelled.of_map
  exact .string _

theorem lexical_of_punctuation {t : Token} (yields : punctuation.Yields s i t k) : t.Lexical := by
  obtain ⟨c, one, rfl⟩ := yields.of_map
  refine .mark _ ?_
  have each := one.of_oneOf.1
  simp only [List.mem_cons, List.not_mem_nil, or_false] at each
  rcases each with rfl | rfl | rfl | rfl | rfl | rfl | rfl | rfl <;> decide

theorem lexical_of_token {t : Token} (yields : token.Yields s i t k) : t.Lexical := by
  obtain ⟨j, yields⟩ := yields.of_recovering
  rcases yields.of_or with yields | mark
  · rcases yields.of_or with yields | word
    · rcases yields.of_or with number | string
      · rcases number.of_or with real | integer
        · exact lexical_of_real real
        · exact lexical_of_integer integer
      · exact lexical_of_string string
    · exact lexical_of_word word
  · exact lexical_of_punctuation mark

def locatedToken : Lexer (Token × Span) :=
  (token.mapSpan fun t span => (t, span)).first blanks

theorem lexical_of_all {located : List (Token × Span)}
    (all : locatedToken.YieldsAll s i located k) : ∀ t ∈ located.map Prod.fst, t.Lexical := by
  induction all with
  | nil => simp
  | cons first others ih =>
      intro t member
      rcases List.mem_cons.mp member with rfl | inside
      · obtain ⟨_, _, here, _⟩ := first.of_first
        obtain ⟨u, token, rfl⟩ := here.of_mapSpan
        exact lexical_of_token token
      · exact ih t inside

end Lexeme

/-- A token that some text has, whatever else is wrong with that text. -/
def Token.Producible (t : Token) : Prop :=
  ∃ text tokens failures, lex text = (some tokens, failures) ∧ t ∈ tokens.map Prod.fst

theorem Token.Producible.lexical {t : Token} (producible : t.Producible) : t.Lexical := by
  obtain ⟨text, tokens, failures, lexed, member⟩ := producible
  obtain ⟨k, yields⟩ := Parser.yields_of_run lexed
  obtain ⟨_, _, front, _⟩ := yields.of_first
  obtain ⟨_, _, _, all⟩ := front.of_second
  exact lexical_of_all all.of_many t member

end StaticImage.Snapshot
