import Mathlib.Tactic.SplitIfs
import StaticImage.Proofs.Snapshot.Fillers
import StaticImage.Proofs.Snapshot.Lexemes
import StaticImage.Proofs.Text.Numerals

namespace StaticImage.Snapshot

open Parsing

namespace Lexeme

theorem toNat_of_isWordStart {c : Char} (start : isWordStart c = true) :
    0x41 ≤ c.toNat ∧ c.toNat ≤ 0x7A := by
  delta isWordStart Char.isAlpha Char.isUpper Char.isLower at start
  simp only [Bool.or_eq_true, Bool.and_eq_true, decide_eq_true_eq, UInt32.le_iff_toNat_le,
    beq_iff_eq] at start
  rcases start with (⟨low, high⟩ | ⟨low, high⟩) | rfl
  · exact ⟨low, Nat.le_trans high (by decide)⟩
  · exact ⟨Nat.le_trans (by decide) low, high⟩
  · decide

theorem toNat_of_isDecimal {c : Char} (digit : isDecimal c = true) :
    0x30 ≤ c.toNat ∧ c.toNat ≤ 0x39 := by
  simp only [isDecimal, Bool.and_eq_true, decide_eq_true_eq] at digit
  exact digit

theorem isWordPart_iff (c : Char) :
    isWordPart c = true ↔ isWordStart c = true ∨ isDecimal c = true := by
  simp only [isWordPart, isWordStart, Char.isAlphanum, Bool.or_eq_true]
  exact or_right_comm

theorem isDecimal_of_isWordStart {c : Char} (start : isWordStart c = true) :
    isDecimal c = false := by
  rw [← Bool.not_eq_true]
  intro digit
  have low := (toNat_of_isWordStart start).1
  have high := (toNat_of_isDecimal digit).2
  omega

theorem isWordPart_of_startsFiller {c : Char} (starts : startsFiller c = true) :
    isWordPart c = false := by
  rw [← Bool.not_eq_true]
  intro part
  obtain ⟨low, high⟩ : 0x30 ≤ c.toNat ∧ c.toNat ≤ 0x7A := by
    rcases (isWordPart_iff c).mp part with start | digit
    · have bounds := toNat_of_isWordStart start
      omega
    · have bounds := toNat_of_isDecimal digit
      omega
  rcases Bool.or_eq_true_iff.mp starts with blank | slash
  · simp only [Text.isBlank, Bool.or_eq_true, Bool.and_eq_true, decide_eq_true_eq] at blank
    omega
  · rw [beq_iff_eq] at slash
    subst slash
    cases part

theorem isDecimal_eq (c : Char) : isDecimal c = c.isDigit := rfl

structure Ends (after : List Char) : Prop where
  part : ∀ c ∈ after.head?, isWordPart c = false
  point : '.' ∉ after.head?

namespace Ends

variable {after : List Char}

theorem absent (ends : Ends after) (c : Char) (part : isWordPart c = true) : c ∉ after.head? := by
  intro first
  rw [ends.part c first] at part
  cases part

theorem digit (ends : Ends after) : ∀ c ∈ after.head?, isDecimal c = false := by
  intro c first
  rw [← Bool.not_eq_true]
  exact fun digit => ends.absent c ((isWordPart_iff c).mpr (Or.inr digit)) first

theorem of_fillers (follows : ∀ c ∈ after.head?, startsFiller c = true) : Ends after where
  part c first := isWordPart_of_startsFiller (follows c first)
  point first := by cases follows '.' first

end Ends

variable {after left : List Char}

theorem digits_takes {ds : List Char} (areDigits : AreDigits ds)
    (stops : ∀ c ∈ after.head?, isDecimal c = false) : digits.Takes ds after (· = ds) :=
  (Parser.takesAll_filter areDigits.2).several (Parser.refuses_filter stops)
    fun _ same => same ▸ areDigits.1

theorem digits_refuses (stops : ∀ c ∈ left.head?, isDecimal c = false) : digits.Refuses left :=
  (Parser.refuses_filter stops).several

theorem whole_takes {ds : List Char} (isWhole : IsWhole ds)
    (stops : ∀ c ∈ after.head?, isDecimal c = false) : whole.Takes ds after (· = ds) := by
  cases isWhole with
  | zero =>
      have nonzero : ((Parser.filter fun c => isDecimal c && c != '0').both
          (Parser.filter isDecimal).many).Refuses (['0'] ++ after) :=
        (Parser.refuses_filter (by simp)).both _
      refine (nonzero.map _).or_takes ((Parser.takes_one '0').map _ fun c same => ?_)
      rw [same]
  | digits c cs first other rest =>
      have front : (Parser.filter fun c => isDecimal c && c != '0').Takes [c] (cs ++ after)
          (· = c) :=
        Parser.takes_filter (by simp [first, other])
      have back := (Parser.takesAll_filter rest).many (Parser.refuses_filter stops)
      refine Parser.Takes.or ((front.both back).map _ ?_) _
      rintro ⟨_, _⟩ ⟨rfl, rfl⟩
      rfl

theorem whole_refuses (stops : ∀ c ∈ left.head?, isDecimal c = false) : whole.Refuses left := by
  refine ((Parser.Refuses.both (Parser.refuses_filter fun c first => ?_) _).map _).or
    ((Parser.refuses_one fun first => ?_).map _)
  · rw [stops c first, Bool.false_and]
  · cases stops '0' first

theorem sign_takes (negative : Bool) (unsigned : '-' ∉ after.head?) :
    sign.Takes (minus negative) after (· = negative) := by
  cases negative with
  | true =>
      refine (Parser.takes_one '-').optional.map _ fun x? held => ?_
      obtain ⟨x, rfl, _⟩ := held
      rfl
  | false =>
      refine (Parser.refuses_one unsigned).optional.map _ fun x? absent => ?_
      rw [absent]
      rfl

theorem optional_takes {α : Type} {p : Lexer α} (word : α → List Char) (x? : Option α)
    (takes : ∀ x ∈ x?, p.Takes (word x) after (· = x)) (refuses : x? = none → p.Refuses after) :
    p.optional.Takes ((x?.map word).getD []) after (· = x?) := by
  cases x? with
  | none => exact (refuses rfl).optional
  | some x =>
      refine (takes x rfl).optional.mono ?_
      rintro _ ⟨_, rfl, rfl⟩
      rfl

theorem AreDigits.head {ds : List Char} (areDigits : AreDigits ds) :
    ∃ d ∈ (ds ++ after).head?, ds = d :: ds.tail ∧ isDecimal d = true := by
  obtain ⟨nonempty, each⟩ := areDigits
  cases ds with
  | nil => exact (nonempty rfl).elim
  | cons d ds => exact ⟨d, rfl, rfl, each d List.mem_cons_self⟩

theorem exponent_takes {es : List Char} (isExponent : IsExponent es) (ends : Ends after) :
    exponent.Takes es after (· = es) := by
  cases isExponent with
  | intro mark sign? ds marks signs areDigits =>
      have middle : (Parser.oneOf ['+', '-']).optional.Takes ((sign?.map fun c => [c]).getD [])
          (ds ++ after) (· = sign?) := by
        refine optional_takes (fun c => [c]) sign? (fun c given => ?_) fun none => ?_
        · exact Parser.takes_oneOf (signs c given)
        · refine Parser.refuses_oneOf fun c first member => ?_
          have digit : isDecimal c = true := by
            obtain ⟨d, here, _, digit⟩ := areDigits.head
            cases first.symm.trans here
            exact digit
          simp only [List.mem_cons, List.not_mem_nil, or_false] at member
          rcases member with rfl | rfl <;> cases digit
      have parts := ((Parser.takes_oneOf marks).both middle).both
        (digits_takes areDigits ends.digit)
      have word : mark :: sign?.toList ++ ds =
          [mark] ++ (sign?.map fun c => [c]).getD [] ++ ds := by
        cases sign? <;> rfl
      rw [word]
      refine parts.map _ ?_
      rintro ⟨⟨_, _⟩, _⟩ ⟨⟨rfl, rfl⟩, rfl⟩
      exact word

theorem exponent_refuses (ends : Ends left) : exponent.Refuses left := by
  refine Parser.Refuses.map (((Parser.refuses_oneOf fun c first member => ?_).both _).both _) _
  simp only [List.mem_cons, List.not_mem_nil, or_false] at member
  rcases member with rfl | rfl
  · exact ends.absent 'e' rfl first
  · exact ends.absent 'E' rfl first

theorem IsWhole.unsigned {ds : List Char} (isWhole : IsWhole ds) : '-' ∉ (ds ++ after).head? := by
  cases isWhole with
  | zero => simp
  | digits c cs first =>
      intro same
      cases same
      cases first

theorem signed_takes (negative : Bool) {ds : List Char} (isWhole : IsWhole ds)
    (stops : ∀ c ∈ after.head?, isDecimal c = false) :
    (sign.both whole).Takes (minus negative ++ ds) after fun z => z = (negative, ds) := by
  exact ((sign_takes negative isWhole.unsigned).both (whole_takes isWhole stops)).mono
    fun z same => Prod.ext same.1 same.2

theorem IsExponent.head {es : List Char} (isExponent : IsExponent es) :
    ∀ c ∈ (es ++ after).head?, isDecimal c = false := by
  cases isExponent with
  | intro mark sign? ds marks signs areDigits =>
      intro c first
      obtain rfl : mark = c := by simpa using first
      simp only [List.mem_cons, List.not_mem_nil, or_false] at marks
      rcases marks with rfl | rfl <;> rfl

theorem real_takes (r : RealLiteral) (ends : Ends after) :
    real.Takes r.text after (· = .real (String.ofList r.text)) := by
  obtain ⟨negative, ds, fraction, es, isWhole, areDigits, isExponent⟩ := r
  have last : exponent.optional.Takes (es.getD []) after (· = es) := by
    have taken := optional_takes id es (fun x given => exponent_takes (isExponent x given) ends)
      fun _ => exponent_refuses ends
    rwa [Option.map_id] at taken
  have stops : ∀ c ∈ (es.getD [] ++ after).head?, isDecimal c = false := by
    cases es with
    | none => exact ends.digit
    | some es => exact (isExponent es rfl).head
  have middle : digits.optional.Takes (fraction.getD []) (es.getD [] ++ after) (· = fraction) := by
    have taken := optional_takes id fraction (fun x given => digits_takes (areDigits x given) stops)
      fun _ => digits_refuses stops
    rwa [Option.map_id] at taken
  have point : (Parser.one '.').Takes ['.'] (fraction.getD [] ++ (es.getD [] ++ after)) (· = '.') :=
    Parser.takes_one '.'
  have front := (signed_takes negative isWhole (by simp [isDecimal])).first point
  refine Parser.Takes.map ((front.both middle).both last) _ ?_
  rintro ⟨⟨⟨_, _⟩, _⟩, _⟩ ⟨⟨⟨rfl, rfl⟩, rfl⟩, rfl⟩
  rfl

theorem toList_int (n : Int) :
    (toString n).toList = minus (decide (n < 0)) ++ Nat.toDigits 10 n.natAbs := by
  rw [Decimal.toList_int]
  split
  · rename_i positive
    have size : n.toNat = n.natAbs := by omega
    rw [decide_eq_false (Int.not_lt.mpr positive), Decimal.toList_nat, size]
    rfl
  · rename_i negative
    have below : n < 0 := Int.not_le.mp negative
    have size : (-n).toNat = n.natAbs := by omega
    rw [decide_eq_true below, Decimal.toList_nat, size]
    rfl

theorem isWhole_toDigits (n : Nat) : IsWhole (Nat.toDigits 10 n) := by
  rcases Decimal.toDigits_cases n with zero | ⟨c, cs, digits, first, other, rest⟩
  · rw [zero]
    exact .zero
  · rw [digits]
    exact .digits c cs first other rest

theorem numeral_toDigits (n : Nat) : numeral 10 0 (Nat.toDigits 10 n) = n := by
  have each (start : Nat) (ds : List Char) (digits : ∀ d ∈ ds, d.isDigit = true) :
      numeral 10 start ds = Nat.ofDigitChars 10 ds start := by
    induction ds generalizing start with
    | nil => rfl
    | cons d ds ih =>
        have digit := digits d List.mem_cons_self
        rw [← isDecimal_eq, isDecimal, Bool.and_eq_true, decide_eq_true_eq, decide_eq_true_eq]
          at digit
        have next : start * 10 + Hex.value d = 10 * start + (d.toNat - '0'.toNat) := by
          rw [Hex.value, if_pos digit.2, Nat.mul_comm]
          rfl
        have later := ih (start * 10 + Hex.value d) fun c member =>
          digits c (List.mem_cons_of_mem d member)
        rw [next] at later
        rw [numeral, List.foldl_cons, next]
        exact later
  rw [each 0 _ fun d => Nat.isDigit_of_mem_toDigits (by decide) (by decide),
    Nat.ofDigitChars_ten_toDigits]

theorem hexInteger_refuses {ds : List Char} (isWhole : IsWhole ds) (ends : Ends after) :
    hexInteger.Refuses (ds ++ after) := by
  refine Parser.Refuses.check (Parser.Refuses.map (Parser.Refuses.both ?_ _) _) _
  cases isWhole with
  | zero =>
      have zero (x : Char) (part : isWordPart x = true) :
          ((Parser.one '0').both (Parser.one x)).Refuses (['0'] ++ after) :=
        (Parser.takes_one '0').both_refuses (Parser.refuses_one (ends.absent x part))
      exact (zero 'x' rfl).or (zero 'X' rfl)
  | digits c cs _ other =>
      have absent : '0' ∉ (c :: cs ++ after).head? := by
        simpa using other
      exact ((Parser.refuses_one absent).both _).or ((Parser.refuses_one absent).both _)

theorem integer_takes (n : Int) (small : n.natAbs < 1 <<< 63) (ends : Ends after) :
    integer.Takes (toString n).toList after (· = .int n) := by
  have isWhole := isWhole_toDigits n.natAbs
  have decimal : decimalInteger.Takes (Nat.toDigits 10 n.natAbs) after (· = n.natAbs) := by
    refine (whole_takes isWhole ends.digit).check fun ds same => ⟨n.natAbs, ?_, rfl⟩
    rw [same]
    exact (magnitude_eq_ok_iff (by decide) _ _).mpr ⟨numeral_toDigits n.natAbs, small⟩
  have magnitude := (hexInteger_refuses isWhole ends).or_takes decimal
  rw [toList_int]
  refine Parser.Takes.map ((sign_takes _ isWhole.unsigned).both magnitude) _ ?_
  rintro ⟨_, _⟩ ⟨rfl, rfl⟩
  refine congrArg Token.int ?_
  split
  · rename_i negative
    have below := of_decide_eq_true negative
    omega
  · rename_i positive
    have above : ¬ n < 0 := fun below => positive (decide_eq_true below)
    omega

theorem real_refuses_integer (n : Int) (ends : Ends after) :
    real.Refuses ((toString n).toList ++ after) := by
  have signed := signed_takes (decide (n < 0)) (isWhole_toDigits n.natAbs) ends.digit
  have point := signed.both_refuses (Parser.refuses_one ends.point)
  rw [toList_int]
  exact ((((point.map _).both _).both _).map _)

theorem number_refuses (unsigned : '-' ∉ left.head?)
    (plain : ∀ c ∈ left.head?, isDecimal c = false) : number.Refuses left := by
  have sign_nothing : sign.Takes [] left (· = false) := sign_takes false unsigned
  have signed : (sign.both whole).Refuses left := sign_nothing.both_refuses (whole_refuses plain)
  have zero : '0' ∉ left.head? := fun first => by cases plain '0' first
  have hex : hexInteger.Refuses left := by
    refine Parser.Refuses.check (Parser.Refuses.map (Parser.Refuses.both ?_ _) _) _
    exact ((Parser.refuses_one zero).both _).or ((Parser.refuses_one zero).both _)
  have decimal : decimalInteger.Refuses left := (whole_refuses plain).check _
  have real : real.Refuses left := (((((signed.both _).map _).both _).both _).map _)
  exact real.or ((sign_nothing.both_refuses (hex.or decimal)).map _)

theorem word_takes {cs : List Char} (isWord : IsWord cs) (ends : Ends after) :
    word.Takes cs after (· = Token.ofWord (String.ofList cs)) := by
  cases isWord with
  | intro c cs start parts =>
      have rest := (Parser.takesAll_filter parts).many (Parser.refuses_filter ends.part)
      refine Parser.Takes.map ((Parser.takes_filter start).both rest) _ ?_
      rintro ⟨_, _⟩ ⟨rfl, rfl⟩
      rfl

theorem word_refuses (other : ∀ c ∈ left.head?, isWordStart c = false) : word.Refuses left :=
  ((Parser.refuses_filter other).both _).map _

theorem string_refuses (other : '"' ∉ left.head?) : string.Refuses left :=
  ((((Parser.refuses_one other).both _).map _).both _).map _ |>.map _ |>.labelled _

theorem codeEscape_takes (c : Char) :
    codeEscape.Takes ('{' :: Hex.padded Hex.lower 1 c.toNat ++ ['}']) after (· = c) := by
  have digits : ∀ d ∈ Hex.padded Hex.lower 1 c.toNat, Hex.isDigit d = true :=
    Hex.isDigit_of_mem_fixed Hex.lower (by decide) _ _
  have nonempty : Hex.padded Hex.lower 1 c.toNat ≠ [] := by
    rw [← List.length_pos_iff, Hex.padded, Hex.length_fixed]
    omega
  have inside : hexDigits.Takes (Hex.padded Hex.lower 1 c.toNat) ('}' :: after)
      (· = Hex.padded Hex.lower 1 c.toNat) :=
    (Parser.takesAll_filter digits).several (Parser.refuses_filter (by simp [Hex.isDigit]))
      fun _ same => same ▸ nonempty
  refine (inside.between '{').check fun ds same => ⟨c, ?_, rfl⟩
  rw [same]
  simp only [Hex.toNat_padded_lower]
  have valid : c.toNat.isValidChar := c.valid
  rw [if_pos valid, Char.ofNat_toNat]

theorem one_refuses {mark c : Char} (apart : c ≠ mark) (more : List Char) :
    (Parser.one mark).Refuses (c :: more) :=
  Parser.refuses_one (by simpa using apart)

theorem named_takes {mark c : Char} :
    ((Parser.one mark).map fun _ => c).Takes [mark] after (· = c) :=
  (Parser.takes_one mark).map _ fun _ _ => rfl

section

variable {mark : Char} {text : List Char} {ps : List (Lexer Char)} {holds : Char → Prop}

/-- The escapes of the backslash and the quote are tried first. -/
theorem past_themselves (other : mark ≠ '\\') (unquoted : mark ≠ '"')
    (one : Parser.TakesOne ps (mark :: text) after holds) :
    Parser.TakesOne (Parser.one '\\' :: Parser.one '"' :: ps) (mark :: text) after holds :=
  (one_refuses other _).there ((one_refuses unquoted _).there one)

theorem past_named {named c : Char} (apart : mark ≠ named)
    (one : Parser.TakesOne ps (mark :: text) after holds) :
    Parser.TakesOne (((Parser.one named).map fun _ => c) :: ps) (mark :: text) after holds :=
  ((one_refuses apart _).map _).there one

end

theorem escape_takes (c : Char) :
    ((Parser.filter fun c => c != '\\' && c != '"').or escape).Takes (Text.escape c) after
      (· = c) := by
  have escaped {text : List Char} {ps : List (Lexer Char)}
      (chosen : escape = (Parser.one '\\').second (Parser.choice ps))
      (one : Parser.TakesOne ps text after (· = c)) :
      ((Parser.filter fun c => c != '\\' && c != '"').or escape).Takes ('\\' :: text) after
        (· = c) := by
    refine (Parser.refuses_filter (by simp)).or_takes ?_
    rw [chosen]
    exact (Parser.takes_one '\\').second one.choice
  unfold Text.escape
  split_ifs with zero tab back feed quote slash printable
  · subst zero
    refine escaped rfl (past_themselves (by decide) (by decide) (past_named (by decide) ?_))
    exact past_named (by decide) (past_named (by decide) (named_takes.here _))
  · subst tab
    refine escaped rfl (past_themselves (by decide) (by decide) ?_)
    exact past_named (by decide) (named_takes.here _)
  · subst back
    refine escaped rfl (past_themselves (by decide) (by decide) (past_named (by decide) ?_))
    exact past_named (by decide) (named_takes.here _)
  · subst feed
    exact escaped rfl (past_themselves (by decide) (by decide) (named_takes.here _))
  · subst quote
    exact escaped rfl ((one_refuses (by decide) _).there ((Parser.takes_one '"').here _))
  · subst slash
    exact escaped rfl ((Parser.takes_one '\\').here _)
  · exact (Parser.takes_filter (by simp [quote, slash])).or _
  · have code : ((Parser.one 'u').second codeEscape).Takes
        ('u' :: '{' :: Hex.padded Hex.lower 1 c.toNat ++ ['}']) after (· = c) :=
      (Parser.takes_one 'u').second (codeEscape_takes c)
    refine escaped rfl (past_themselves (by decide) (by decide) (past_named (by decide) ?_))
    refine past_named (by decide) (past_named (by decide) (past_named (by decide) ?_))
    exact (((one_refuses (by decide) _).both _).map _).there (code.here _)

theorem escape_ne_nil (c : Char) : Text.escape c ≠ [] := by
  unfold Text.escape
  split_ifs <;> simp

theorem string_takes (content : String) :
    string.Takes (Text.quote content).toList after (· = .string content) := by
  have all : ((Parser.filter fun c => c != '\\' && c != '"').or escape).TakesAll
      (content.toList.flatMap Text.escape) ('"' :: after) (· = content.toList) := by
    generalize content.toList = cs
    induction cs with
    | nil => exact Parser.takesAll_nil rfl
    | cons c cs ih =>
        refine Parser.TakesAll.cons (escape_takes c) (escape_ne_nil c) ih ?_
        intro d ds same same'
        rw [same, same']
  have closes : ((Parser.filter fun c => c != '\\' && c != '"').or escape).Refuses
      ('"' :: after) := by
    refine (Parser.refuses_filter (by simp)).or ?_
    exact ((one_refuses (by decide) _).both _).map _
  have whole := ((Parser.takes_one '"').second (all.many closes)).first (Parser.takes_one '"')
  rw [Text.quote, String.toList_ofList]
  refine Parser.Takes.labelled (Parser.Takes.map whole _ ?_) _
  intro cs same
  rw [same, String.ofList_toList]

theorem mark_takes (t : Token) (mark : t ∈ Token.marks) :
    ∃ c, t.display.toList = [c] ∧ (c ≠ '-' ∧ c ≠ '"' ∧ isDecimal c = false) ∧
      isWordStart c = false ∧ ∀ after, punctuation.Takes [c] after (· = t) := by
  have taken {c : Char} {u : Token} {f : Char → Token} {cs : List Char}
      (same : punctuation = (Parser.oneOf cs).map f) (member : c ∈ cs) (means : f c = u)
      (after : List Char) : punctuation.Takes [c] after (· = u) := by
    rw [same]
    refine (Parser.takes_oneOf member).map _ fun x here => ?_
    rw [here, means]
  simp only [Token.marks, List.mem_cons, List.not_mem_nil, or_false] at mark
  rcases mark with rfl | rfl | rfl | rfl | rfl | rfl | rfl | rfl
  · exact ⟨'(', rfl, by decide, rfl, taken rfl (by decide) rfl⟩
  · exact ⟨')', rfl, by decide, rfl, taken rfl (by decide) rfl⟩
  · exact ⟨'{', rfl, by decide, rfl, taken rfl (by decide) rfl⟩
  · exact ⟨'}', rfl, by decide, rfl, taken rfl (by decide) rfl⟩
  · exact ⟨'[', rfl, by decide, rfl, taken rfl (by decide) rfl⟩
  · exact ⟨']', rfl, by decide, rfl, taken rfl (by decide) rfl⟩
  · exact ⟨':', rfl, by decide, rfl, taken rfl (by decide) rfl⟩
  · exact ⟨',', rfl, by decide, rfl, taken rfl (by decide) rfl⟩

theorem display_ofWord (word : String) : (Token.ofWord word).display = word := by
  unfold Token.ofWord
  split_ifs with isNil isTrue isFalse
  · exact isNil.symm
  · exact isTrue.symm
  · exact isFalse.symm
  · rfl

/-- The tokens that show where they end, whatever follows. -/
def isClosed : Token → Bool
  | .ident _ | .nil | .bool _ | .int _ | .real _ => false
  | _ => true

theorem isClosed_ofWord (word : String) : isClosed (Token.ofWord word) = false := by
  unfold Token.ofWord
  split_ifs <;> rfl

/-- A token that texts have is taken from the text it is shown as. -/
theorem token_takes {t : Token} (lexical : t.Lexical) (ends : isClosed t = false → Ends after) :
    token.Takes t.display.toList after (· = t) := by
  refine Parser.Takes.recovering ?_
  cases lexical with
  | word cs isWord =>
      rw [display_ofWord, String.toList_ofList]
      have start : ∀ c ∈ (cs ++ after).head?, isWordStart c = true := by
        cases isWord with
        | intro c cs start => simpa using start
      have number : number.Refuses (cs ++ after) := by
        refine number_refuses (fun first => ?_) fun c first => ?_
        · cases start '-' first
        · exact isDecimal_of_isWordStart (start c first)
      have string : string.Refuses (cs ++ after) :=
        string_refuses fun first => by cases start '"' first
      have taken := word_takes isWord (ends (isClosed_ofWord _))
      exact ((number.or string).or_takes taken).or _
  | int n small =>
      have ends := ends rfl
      have number := (real_refuses_integer n ends).or_takes (integer_takes n small ends)
      exact ((number.or _).or _).or _
  | real literal =>
      rw [Token.display, String.toList_ofList]
      exact (((real_takes literal (ends rfl)).or _).or _).or _ |>.or _
  | string content =>
      have number : number.Refuses ((Text.quote content).toList ++ after) :=
        number_refuses (by simp [Text.quote]) (by simp [Text.quote, isDecimal])
      exact ((number.or_takes (string_takes content)).or _).or _
  | mark t mark =>
      obtain ⟨c, shown, ⟨unsigned, unquoted, plain⟩, start, taken⟩ := mark_takes t mark
      rw [shown]
      have number : number.Refuses ([c] ++ after) :=
        number_refuses (by simpa using unsigned) (by simpa using plain)
      have string : string.Refuses ([c] ++ after) := string_refuses (by simpa using unquoted)
      have word : word.Refuses ([c] ++ after) := word_refuses (by simpa using start)
      exact ((number.or string).or word).or_takes (taken after)

theorem startsFiller_of_isWordPart {c : Char} (part : isWordPart c = true) :
    startsFiller c = false := by
  rw [← Bool.not_eq_true]
  intro starts
  rw [isWordPart_of_startsFiller starts] at part
  cases part

theorem IsWhole.first {ds : List Char} (isWhole : IsWhole ds) :
    ∃ c ∈ ds.head?, startsFiller c = false := by
  cases isWhole with
  | zero => exact ⟨'0', rfl, rfl⟩
  | digits c cs first =>
      exact ⟨c, rfl, startsFiller_of_isWordPart ((isWordPart_iff c).mpr (Or.inr first))⟩

theorem signed_first (negative : Bool) {ds : List Char} (isWhole : IsWhole ds) (more : List Char) :
    ∃ c ∈ (minus negative ++ ds ++ more).head?, startsFiller c = false := by
  cases negative with
  | true => exact ⟨'-', rfl, rfl⟩
  | false =>
      obtain ⟨c, first, closed⟩ := isWhole.first
      refine ⟨c, ?_, closed⟩
      cases ds with
      | nil => cases first
      | cons d ds => exact first

theorem first_of_lexical {t : Token} (lexical : t.Lexical) :
    ∃ c ∈ t.display.toList.head?, startsFiller c = false := by
  cases lexical with
  | word cs isWord =>
      rw [display_ofWord, String.toList_ofList]
      cases isWord with
      | intro c cs start =>
          exact ⟨c, rfl, startsFiller_of_isWordPart ((isWordPart_iff c).mpr (Or.inl start))⟩
  | int n small =>
      have first := signed_first (decide (n < 0)) (isWhole_toDigits n.natAbs) []
      rwa [List.append_nil, ← toList_int] at first
  | real literal =>
      rw [Token.display, String.toList_ofList, RealLiteral.text, List.append_assoc,
        List.append_assoc]
      exact signed_first literal.negative literal.isWhole _
  | string content => exact ⟨'"', by simp [Token.display, Text.quote], rfl⟩
  | mark t mark =>
      simp only [Token.marks, List.mem_cons, List.not_mem_nil, or_false] at mark
      rcases mark with rfl | rfl | rfl | rfl | rfl | rfl | rfl | rfl <;> exact ⟨_, rfl, rfl⟩

end Lexeme

end StaticImage.Snapshot
