import StaticImage.Proofs.Parsing.Giving

/-!
Texts that a parser takes. What is taken by parts one behind the other is taken by the whole; what
follows matters only as far as a part looks ahead.
-/

namespace StaticImage.Parsing

namespace Parser

variable {τ α β γ : Type}

/-- Wherever a text stands in front of another one, the parser gives a value of it. -/
def Takes (p : Parser τ α) (text after : List τ) (holds : α → Prop) : Prop :=
  ∀ (s : Source τ) (i : Nat), s.rest i = text ++ after →
    ∃ x, holds x ∧ p.Gives s i x (i + text.length)

def Refuses (p : Parser τ α) (left : List τ) : Prop :=
  ∀ (s : Source τ) (i : Nat), s.rest i = left → p.Fails s i

variable {p : Parser τ α} {q : Parser τ β} {text more after left : List τ} {holds : α → Prop}
  {also : β → Prop} {then_ : γ → Prop}

theorem Takes.mono {weaker : α → Prop} (takes : p.Takes text after holds)
    (imp : ∀ x, holds x → weaker x) : p.Takes text after weaker := by
  intro s i left
  obtain ⟨x, held, gives⟩ := takes s i left
  exact ⟨x, imp x held, gives⟩

theorem takes_item {accept : τ → Option α} {expected : List τ} {t : τ} {x : α}
    (accepted : accept t = some x) : (item accept expected).Takes [t] after (· = x) :=
  fun _ _ left => ⟨x, rfl, gives_item left accepted⟩

theorem refuses_item {accept : τ → Option α} {expected : List τ}
    (refused : ∀ t ∈ left.head?, accept t = none) : (item accept expected).Refuses left := by
  intro s i there
  exact fails_item (there ▸ refused)

theorem takes_filter {test : τ → Bool} {t : τ} (passed : test t = true) :
    (filter test).Takes [t] after (· = t) :=
  takes_item (if_pos passed)

theorem refuses_filter {test : τ → Bool} (refused : ∀ t ∈ left.head?, test t = false) :
    (filter test).Refuses left :=
  refuses_item fun t member => if_neg (Bool.eq_false_iff.mp (refused t member))

theorem takes_ending : (ending : Parser τ Unit).Takes [] [] fun _ => True :=
  fun _ _ left => ⟨(), trivial, gives_ending left⟩

theorem refuses_ending {t : τ} : (ending : Parser τ Unit).Refuses (t :: left) :=
  fun _ _ there => fails_ending there

theorem Takes.map (takes : p.Takes text after holds) (f : α → γ)
    (imp : ∀ x, holds x → then_ (f x)) : (p.map f).Takes text after then_ := by
  intro s i left
  obtain ⟨x, held, gives⟩ := takes s i left
  exact ⟨f x, imp x held, gives.map f⟩

theorem Refuses.map (refuses : p.Refuses left) (f : α → γ) : (p.map f).Refuses left :=
  fun s i there => (refuses s i there).map f

theorem Takes.mapSpan (takes : p.Takes text after holds) (f : α → Span → γ)
    (imp : ∀ x span, holds x → then_ (f x span)) : (p.mapSpan f).Takes text after then_ := by
  intro s i left
  obtain ⟨x, held, gives⟩ := takes s i left
  exact ⟨_, imp x _ held, gives.mapSpan f⟩

theorem Refuses.mapSpan (refuses : p.Refuses left) (f : α → Span → γ) :
    (p.mapSpan f).Refuses left :=
  fun s i there => (refuses s i there).mapSpan f

theorem Takes.check (takes : p.Takes text after holds) {f : α → Except String γ}
    (imp : ∀ x, holds x → ∃ y, f x = .ok y ∧ then_ y) : (p.check f).Takes text after then_ := by
  intro s i left
  obtain ⟨x, held, gives⟩ := takes s i left
  obtain ⟨y, passed, held⟩ := imp x held
  exact ⟨y, held, gives.check passed⟩

theorem Takes.check_refuses (takes : p.Takes text after holds) {f : α → Except String γ}
    (refused : ∀ x, holds x → ∃ reason, f x = .error reason) :
    (p.check f).Refuses (text ++ after) := by
  intro s i left
  obtain ⟨x, held, gives⟩ := takes s i left
  obtain ⟨_, same⟩ := refused x held
  exact gives.check_fails same

theorem Refuses.check (refuses : p.Refuses left) (f : α → Except String γ) :
    (p.check f).Refuses left :=
  fun s i there => (refuses s i there).check f

theorem Takes.labelled (takes : p.Takes text after holds) (name : String) :
    (p.labelled name).Takes text after holds := by
  intro s i left
  obtain ⟨x, held, gives⟩ := takes s i left
  exact ⟨x, held, gives.labelled name⟩

theorem Refuses.labelled (refuses : p.Refuses left) (name : String) :
    (p.labelled name).Refuses left :=
  fun s i there => (refuses s i there).labelled name

theorem Takes.optional (takes : p.Takes text after holds) :
    p.optional.Takes text after fun x? => ∃ x, x? = some x ∧ holds x := by
  intro s i left
  obtain ⟨x, held, gives⟩ := takes s i left
  exact ⟨some x, ⟨x, rfl, held⟩, gives.optional⟩

theorem Refuses.optional (refuses : p.Refuses after) : p.optional.Takes [] after (· = none) :=
  fun s i left => ⟨none, rfl, (refuses s i left).optional⟩

theorem Takes.recovering (takes : p.Takes text after holds) :
    p.recovering.Takes text after holds := by
  intro s i left
  obtain ⟨x, held, gives⟩ := takes s i left
  exact ⟨x, held, gives.recovering⟩

theorem Refuses.recovering (refuses : p.Refuses []) : p.recovering.Refuses [] :=
  fun s i there => (refuses s i there).recovering there

def TakesAll (p : Parser τ α) (text after : List τ) (holds : List α → Prop) : Prop :=
  ∀ (s : Source τ) (i : Nat), s.rest i = text ++ after →
    ∃ xs, holds xs ∧ p.GivesAll s i xs (i + text.length)

variable {all others : List α → Prop}

theorem takesAll_nil (empty : all []) : p.TakesAll [] after all :=
  fun _ i _ => ⟨[], empty, .nil i⟩

theorem TakesAll.cons (takes : p.Takes text (more ++ after) holds) (nonempty : text ≠ [])
    (next : p.TakesAll more after others) (imp : ∀ y ys, holds y → others ys → all (y :: ys)) :
    p.TakesAll (text ++ more) after all := by
  intro s i left
  rw [List.append_assoc] at left
  obtain ⟨x, held, gives⟩ := takes s i left
  obtain ⟨xs, held', given⟩ := next s _ (Source.rest_append left)
  rw [Nat.add_assoc, ← List.length_append] at given
  have length := s.length_rest i
  rw [left, List.length_append] at length
  have positive := List.length_pos_iff.mpr nonempty
  exact ⟨x :: xs, imp x xs held held', .cons gives (by omega) (by omega) given⟩

theorem takesAll_filter {test : τ → Bool} (passed : ∀ t ∈ text, test t = true) :
    (filter test).TakesAll text after (· = text) := by
  induction text with
  | nil => exact takesAll_nil rfl
  | cons t text ih =>
      have here : (filter test).Takes [t] (text ++ after) (· = t) :=
        takes_filter (passed t List.mem_cons_self)
      have there := ih fun u member => passed u (List.mem_cons_of_mem t member)
      exact TakesAll.cons here (by simp) there fun y ys same same' => by rw [same, same']

/-- A parser that contains itself behind an item needs no more levels than there are items. -/
theorem Takes.recursive {body : Parser τ α → Parser τ α}
    (takes : ∀ depth, text.length < depth → (nested body depth).Takes text after holds) :
    (recursive body).Takes text after holds := by
  intro s i left
  have length := s.length_rest i
  rw [left, List.length_append] at length
  exact takes (s.items.size - i + 1) (by omega) s i left

theorem refuses_nested_zero {body : Parser τ α → Parser τ α} : (nested body 0).Refuses left :=
  fun _ _ _ => ⟨_, rfl⟩

variable [DecidableEq τ]

theorem takes_one (t : τ) : (one t).Takes [t] after (· = t) :=
  takes_item (if_pos rfl)

theorem refuses_one {t : τ} (other : t ∉ left.head?) : (one t).Refuses left :=
  refuses_item fun _ member => if_neg fun same : _ = t => other (same ▸ member)

theorem takes_oneOf {ts : List τ} {t : τ} (member : t ∈ ts) : (oneOf ts).Takes [t] after (· = t) :=
  takes_item (if_pos member)

theorem refuses_oneOf {ts : List τ} (refused : ∀ t ∈ left.head?, t ∉ ts) :
    (oneOf ts).Refuses left :=
  refuses_item fun t member => if_neg (refused t member)

theorem Takes.both (takes : p.Takes text (more ++ after) holds) (next : q.Takes more after also) :
    (p.both q).Takes (text ++ more) after fun z => holds z.1 ∧ also z.2 := by
  intro s i left
  rw [List.append_assoc] at left
  obtain ⟨x, held, gives⟩ := takes s i left
  obtain ⟨y, held', gives'⟩ := next s _ (Source.rest_append left)
  rw [Nat.add_assoc, ← List.length_append] at gives'
  exact ⟨(x, y), ⟨held, held'⟩, gives.both gives'⟩

theorem Refuses.both (refuses : p.Refuses left) (q : Parser τ β) : (p.both q).Refuses left :=
  fun s i there => (refuses s i there).both q

theorem Takes.both_refuses (takes : p.Takes text after holds) (refuses : q.Refuses after) :
    (p.both q).Refuses (text ++ after) := by
  intro s i left
  obtain ⟨x, _, gives⟩ := takes s i left
  exact gives.both_fails (refuses s _ (Source.rest_append left))

theorem Takes.first (takes : p.Takes text (more ++ after) holds)
    (next : q.Takes more after also) : (p.first q).Takes (text ++ more) after holds :=
  (takes.both next).map Prod.fst fun _ => And.left

theorem Takes.second (takes : p.Takes text (more ++ after) holds)
    (next : q.Takes more after also) : (p.second q).Takes (text ++ more) after also :=
  (takes.both next).map Prod.snd fun _ => And.right

theorem Takes.between {closing : τ} (takes : p.Takes text (closing :: after) holds)
    (opening : τ) :
    (p.between (one opening) (one closing)).Takes (opening :: text ++ [closing]) after holds :=
  ((takes_one opening).second takes).first (takes_one closing)

theorem refuses_between {opening : τ} (other : opening ∉ left.head?) (closing : τ) :
    (p.between (one opening) (one closing)).Refuses left :=
  (((((refuses_one other).both p).map Prod.snd).both _).map Prod.fst)

theorem Takes.or (takes : p.Takes text after holds) (p' : Parser τ α) :
    (p.or p').Takes text after holds := by
  intro s i left
  obtain ⟨x, held, gives⟩ := takes s i left
  exact ⟨x, held, gives.or p'⟩

theorem Refuses.or_takes {p' : Parser τ α} (refuses : p.Refuses (text ++ after))
    (takes : p'.Takes text after holds) : (p.or p').Takes text after holds := by
  intro s i left
  obtain ⟨x, held, gives⟩ := takes s i left
  exact ⟨x, held, (refuses s i left).or_gives gives⟩

theorem Refuses.or {p' : Parser τ α} (refuses : p.Refuses left) (others : p'.Refuses left) :
    (p.or p').Refuses left :=
  fun s i there => (refuses s i there).or (others s i there)

def TakesOne (ps : List (Parser τ α)) (text after : List τ) (holds : α → Prop) : Prop :=
  ∀ (s : Source τ) (i : Nat), s.rest i = text ++ after →
    ∃ x, holds x ∧ GivesOne ps s i x (i + text.length)

variable {ps : List (Parser τ α)}

theorem Takes.here (takes : p.Takes text after holds) (ps : List (Parser τ α)) :
    TakesOne (p :: ps) text after holds := by
  intro s i left
  obtain ⟨x, held, gives⟩ := takes s i left
  exact ⟨x, held, gives.here ps⟩

theorem Refuses.there (refuses : p.Refuses (text ++ after))
    (others : TakesOne ps text after holds) : TakesOne (p :: ps) text after holds := by
  intro s i left
  obtain ⟨x, held, one⟩ := others s i left
  exact ⟨x, held, (refuses s i left).there one⟩

theorem TakesOne.choice (one : TakesOne ps text after holds) :
    (Parser.choice ps).Takes text after holds := by
  intro s i left
  obtain ⟨x, held, given⟩ := one s i left
  exact ⟨x, held, given.choice⟩

theorem Takes.skipUntil (takes : p.Takes more after holds)
    (skipped : ∀ front t back, text = front ++ t :: back →
      p.Refuses (t :: back ++ (more ++ after))) :
    p.skipUntil.Takes (text ++ more) after holds := by
  intro s i left
  rw [List.append_assoc] at left
  obtain ⟨x, held, gives⟩ := takes s _ (Source.rest_append left)
  rw [Nat.add_assoc, ← List.length_append] at gives
  have length := s.length_rest i
  rw [left, List.length_append] at length
  refine ⟨x, held, gives.skipUntil (fun m start stop => ?_) (by omega) (by omega)⟩
  have inside : m - i < text.length := by omega
  refine skipped (text.take (m - i)) text[m - i] (text.drop (m - i + 1)) ?_ s m ?_
  · rw [List.getElem_cons_drop, List.take_append_drop]
  · have there := s.rest_add i (m - i)
    rw [Nat.add_sub_cancel' start, left,
      List.drop_append_of_le_length (Nat.le_of_lt inside)] at there
    rw [there, List.cons_append, ← List.cons_append, List.getElem_cons_drop]

theorem TakesAll.many (takes : p.TakesAll text after all) (stops : p.Refuses after) :
    p.many.Takes text after all := by
  intro s i left
  obtain ⟨xs, held, given⟩ := takes s i left
  exact ⟨xs, held, given.many (stops s _ (Source.rest_append left))⟩

theorem TakesAll.several (takes : p.TakesAll text after all) (stops : p.Refuses after)
    (nonempty : ∀ xs, all xs → xs ≠ []) : p.several.Takes text after all := by
  intro s i left
  obtain ⟨xs, held, given⟩ := takes s i left
  exact ⟨xs, held, given.several (stops s _ (Source.rest_append left)) (nonempty xs held)⟩

theorem Refuses.several (refuses : p.Refuses left) : p.several.Refuses left :=
  fun s i there => (refuses s i there).several

def TakesBehind (p : Parser τ α) (mark : τ) (text after : List τ)
    (holds : List α → Prop) : Prop :=
  ∀ (s : Source τ) (i : Nat), s.rest i = text ++ after →
    ∃ xs, holds xs ∧ GivesBehind p (one mark) s i xs (i + text.length)

variable {mark : τ}

theorem takesBehind_nil (other : mark ∉ after.head?) (empty : all []) :
    TakesBehind p mark [] after all :=
  fun s _ left => ⟨[], empty, .done (refuses_one other s _ left)⟩

theorem Refuses.trailing (refuses : p.Refuses after) (empty : all []) :
    TakesBehind p mark [mark] after all :=
  fun s _ left => ⟨[], empty, .trailing (gives_one left) (refuses s _ (Source.rest_cons left))⟩

theorem TakesBehind.cons (takes : p.Takes text (more ++ after) holds)
    (next : TakesBehind p mark more after others)
    (imp : ∀ y ys, holds y → others ys → all (y :: ys)) :
    TakesBehind p mark (mark :: text ++ more) after all := by
  intro s i left
  rw [List.append_assoc, List.cons_append] at left
  obtain ⟨x, held, gives⟩ := takes s _ (Source.rest_cons left)
  obtain ⟨xs, held', behind⟩ := next s _ (Source.rest_append (Source.rest_cons left))
  have length := s.length_rest i
  rw [left, List.length_cons, List.length_append] at length
  have stop : i + (mark :: text ++ more).length = i + 1 + text.length + more.length := by
    rw [List.length_append, List.length_cons]
    omega
  rw [stop]
  exact ⟨x :: xs, imp x xs held held',
    .more (gives_one left) gives (by omega) (by omega) behind⟩

theorem Takes.separated (takes : p.Takes text (more ++ after) holds)
    (behind : TakesBehind p mark more after others)
    (imp : ∀ y ys, holds y → others ys → all (y :: ys)) :
    (p.separated (one mark)).Takes (text ++ more) after all := by
  intro s i left
  rw [List.append_assoc] at left
  obtain ⟨x, held, gives⟩ := takes s i left
  obtain ⟨xs, held', given⟩ := behind s _ (Source.rest_append left)
  rw [Nat.add_assoc, ← List.length_append] at given
  exact ⟨x :: xs, imp x xs held held', gives.separated given⟩

theorem Refuses.separated (refuses : p.Refuses after) (separator : Parser τ β) (empty : all []) :
    (p.separated separator).Takes [] after all :=
  fun s i left => ⟨[], empty, (refuses s i left).separated separator⟩

end Parser

end StaticImage.Parsing
