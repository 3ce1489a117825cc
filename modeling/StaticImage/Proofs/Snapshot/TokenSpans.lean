import StaticImage.Proofs.Parsing.Spans
import StaticImage.Proofs.Snapshot.Lexing
import StaticImage.Snapshot.Reading

namespace StaticImage

def Span.under (span : Span) (text : String) : String :=
  String.ofList ((text.toList.drop span.start).take (span.stop - span.start))

namespace Snapshot

open Parsing

namespace Lexeme

theorem digits_cover : Parser.Covers 1 digits :=
  (Parser.covers_filter _).several

theorem hexDigits_cover : Parser.Covers 1 hexDigits :=
  (Parser.covers_filter _).several

theorem whole_covers : Parser.Covers 1 whole :=
  (((Parser.covers_filter _).both (Parser.covers_filter _).many).map _).or
    ((Parser.covers_one _).map _)

theorem sign_covers : Parser.Covers 0 sign :=
  (Parser.covers_one _).optional.map _

theorem exponent_covers : Parser.Covers 2 exponent :=
  (((Parser.covers_oneOf _).both (Parser.covers_oneOf _).optional).both digits_cover).map _

theorem real_covers : Parser.Covers 2 real :=
  ((((sign_covers.both whole_covers).first (Parser.covers_one _)).both
    digits_cover.optional).both exponent_covers.optional).map _

theorem integer_covers : Parser.Covers 1 integer := by
  have hex : Parser.Covers 3 hexInteger :=
    ((((Parser.covers_one _).both (Parser.covers_one _)).or
      ((Parser.covers_one _).both (Parser.covers_one _))).second hexDigits_cover).check _
  have decimal : Parser.Covers 1 decimalInteger := whole_covers.check _
  exact (sign_covers.both ((hex.mono (by decide)).or decimal)).map _

theorem escape_covers : Parser.Covers 2 escape := by
  have byte : Parser.Covers 2 byteEscape :=
    ((Parser.covers_filter _).both (Parser.covers_filter _)).check _
  have code : Parser.Covers 3 codeEscape := (hexDigits_cover.between _ _).check _
  refine (Parser.covers_one _).second (Parser.covers_choice (n := 1) ?_)
  simp only [List.forall_mem_cons, List.not_mem_nil, false_imp_iff, implies_true, and_true]
  exact ⟨Parser.covers_one _, Parser.covers_one _, (Parser.covers_one _).map _,
    (Parser.covers_one _).map _, (Parser.covers_one _).map _, (Parser.covers_one _).map _,
    ((Parser.covers_one _).second byte).mono (by decide),
    ((Parser.covers_one _).second code).mono (by decide)⟩

theorem string_covers : Parser.Covers 2 string :=
  ((((Parser.covers_one _).second ((Parser.covers_filter _).or
    (escape_covers.mono (by decide))).many).first (Parser.covers_one _)).map _).labelled _

theorem word_covers : Parser.Covers 1 word :=
  ((Parser.covers_filter _).both (Parser.covers_filter _).many).map _

theorem punctuation_covers : Parser.Covers 1 punctuation :=
  (Parser.covers_oneOf _).map _

theorem lineEnd_covers : Parser.Covers 1 lineEnd :=
  (((Parser.covers_one _).optional.both (Parser.covers_one _)).map _).or
    ((Parser.covers_filter _).map _)

theorem blanks_cover : Parser.Covers 0 blanks := by
  have line : Parser.Covers 2 lineComment :=
    (((Parser.covers_one _).both (Parser.covers_one _)).both
      ((lineEnd_covers.mono (by decide)).or Parser.covers_ending).skipUntil).map _
  have block : Parser.Covers 4 blockComment :=
    (((Parser.covers_one _).both (Parser.covers_one _)).both
      ((Parser.covers_one _).both (Parser.covers_one _)).skipUntil).map _
  exact ((((Parser.covers_filter _).map _).or (line.mono (by decide))).or
    (block.mono (by decide))).many.map _

/-- A token that is read at once; the others are found behind characters that are left out. -/
theorem sound_covers : Parser.Covers 1 (((number.or string).or word).or punctuation) :=
  ((((real_covers.mono (by decide)).or integer_covers).or (string_covers.mono (by decide))).or
    word_covers).or punctuation_covers

variable {s : Source Char} {i k : Nat}

theorem rest_of_yieldsAll {test : Char → Bool} {cs : List Char}
    (all : (Parser.filter test).YieldsAll s i cs k) : s.rest i = cs ++ s.rest k := by
  induction all with
  | nil => rfl
  | cons first others ih => rw [first.of_filter.2, ih, List.cons_append]

theorem ofWord_eq_ident {w name : String} (made : Token.ofWord w = .ident name) : name = w := by
  unfold Token.ofWord at made
  split at made
  · cases made
  · split at made
    · cases made
    · split at made
      · cases made
      · exact (Token.ident.inj made).symm

theorem word_of_sound {name : String}
    (yields : (((number.or string).or word).or punctuation).Yields s i (.ident name) k) :
    word.Yields s i (.ident name) k := by
  rcases yields.of_or with yields | marks
  · rcases yields.of_or with yields | words
    · rcases yields.of_or with numbers | strings
      · rcases numbers.of_or with reals | integers
        · obtain ⟨_, _, made⟩ := reals.of_map
          cases made
        · obtain ⟨_, _, made⟩ := integers.of_map
          cases made
      · obtain ⟨_, _, made⟩ := strings.of_labelled.of_map
        cases made
    · exact words
  · obtain ⟨c, one, made⟩ := marks.of_map
    have each := one.of_oneOf.1
    simp only [List.mem_cons, List.not_mem_nil, or_false] at each
    rcases each with rfl | rfl | rfl | rfl | rfl | rfl | rfl | rfl <;> cases made

theorem word_text {text : List Char} {name : String}
    (yields : word.Yields (characters text) i (.ident name) k) :
    (text.drop i).take (k - i) = name.toList := by
  obtain ⟨further, _, bound⟩ := word_covers yields
  have inside := bound further
  obtain ⟨⟨c, cs⟩, both, made⟩ := yields.of_map
  obtain ⟨j, first, others⟩ := both.of_both
  have left : (characters text).rest i = (c :: cs) ++ (characters text).rest k := by
    rw [first.of_filter.2, rest_of_yieldsAll others.of_many, List.cons_append]
  have count := congrArg List.length left
  rw [List.length_append, Source.length_rest, Source.length_rest, length_characters] at count
  rw [length_characters] at inside
  have there : text.drop i = (characters text).rest i := by
    rw [← Nat.zero_add i, Source.rest_add, rest_characters, Nat.zero_add]
  rw [there, left, ofWord_eq_ident made, String.toList_ofList, List.take_left' (by omega)]

end Lexeme

open Lexeme

def Named (text : String) (t : Token × Span) : Prop :=
  ∀ name, t.1 = .ident name → t.2.under text = name

section

variable {text : String} {i k : Nat}

theorem token_placed {t : Token} (gives : token.Gives (characters text.toList) i t k) :
    i < k ∧ k ≤ (characters text.toList).items.size ∧
      Named text (t, (characters text.toList).spanFrom i k) := by
  have yields := gives.of_recovering.yields
  obtain ⟨further, _, bound⟩ := sound_covers yields
  have inside := bound further
  refine ⟨further, inside, ?_⟩
  rintro name rfl
  rw [length_characters] at inside
  rw [spanFrom_characters _ further inside, Span.under, word_text (word_of_sound yields),
    String.ofList_toList]

theorem locatedToken_placed {t : Token × Span}
    (gives : locatedToken.Gives (characters text.toList) i t k) :
    ∃ j, i < j ∧ j ≤ (characters text.toList).items.size ∧
      (characters text.toList).Reaches j k ∧ t.2 = (characters text.toList).spanFrom i j ∧
      Named text t := by
  obtain ⟨j, _, here, gap⟩ := gives.of_first
  obtain ⟨t, given, rfl⟩ := here.of_mapSpan
  obtain ⟨further, inside, named⟩ := token_placed given
  exact ⟨j, further, inside, (blanks_cover gap.yields).2, rfl, named⟩

theorem tokens_placed {located : List (Token × Span)}
    (all : locatedToken.GivesAll (characters text.toList) i located k) :
    (characters text.toList).Parts i (located.map Prod.snd) k ∧ ∀ t ∈ located, Named text t := by
  induction all with
  | nil i => exact ⟨.none ⟨Nat.le_refl i, by omega⟩, nofun⟩
  | cons first _ _ _ ih =>
      obtain ⟨j, further, inside, reaches, span, named⟩ := locatedToken_placed first
      rw [List.map_cons, span]
      exact ⟨.next ⟨Nat.le_refl _, by omega⟩ further inside (ih.1.from_before reaches),
        List.forall_mem_cons.mpr ⟨named, ih.2⟩⟩

theorem orderly_characters (text : List Char) : (characters text).Orderly text.length := by
  constructor
  · intro i inside
    rw [length_characters] at inside
    rw [spanAt_characters text inside]
    exact Nat.lt_succ_self i
  · intro i j less inside
    rw [length_characters] at inside
    rw [spanAt_characters text inside, spanAt_characters text (by omega)]
    exact less
  · intro i inside
    rw [length_characters] at inside
    rw [spanAt_characters text inside]
    exact inside

theorem taken_of_sound {tokens : List (Token × Span)} (sound : lex text = (some tokens, [])) :
    ∃ j k x, blanks.Gives (characters text.toList) 0 x j ∧
      locatedToken.GivesAll (characters text.toList) j tokens k ∧
      (characters text.toList).rest k = [] := by
  obtain ⟨_, gives⟩ := Parser.gives_of_run sound
  obtain ⟨k, _, front, ended⟩ := gives.of_first
  obtain ⟨j, x, led, many⟩ := front.of_second
  refine ⟨j, k, x, led, many.of_many fun i t k given => ?_, ended.yields.of_ending.1⟩
  obtain ⟨j, further, inside, reaches, _⟩ := locatedToken_placed given
  simp only [Source.Reaches] at reaches
  omega

theorem lex_places {tokens : List (Token × Span)} (sound : lex text = (some tokens, [])) :
    (tokenSource text.length tokens).Orderly text.length ∧ ∀ t ∈ tokens, Named text t := by
  obtain ⟨_, _, _, _, all, _⟩ := taken_of_sound sound
  obtain ⟨parts, named⟩ := tokens_placed all
  refine ⟨Source.orderly_of_encloses ?_, named⟩
  rw [← String.length_toList]
  exact parts.bounded (orderly_characters text.toList)

end

end Snapshot

end StaticImage
