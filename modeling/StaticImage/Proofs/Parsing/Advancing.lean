import StaticImage.Proofs.Parsing.Giving

namespace StaticImage.Parsing

/-- A later position that is not behind the end of the input, or the same one. -/
def Source.Reaches {τ : Type} (s : Source τ) (i k : Nat) : Prop :=
  i ≤ k ∧ (i < k → k ≤ s.items.size)

namespace Parser

variable {τ α β : Type}

/-- Each value that a parser yields takes at least so many items. -/
def Covers (least : Nat) (p : Parser τ α) : Prop :=
  ∀ ⦃s : Source τ⦄ ⦃i : Nat⦄ ⦃x : α⦄ ⦃k : Nat⦄, p.Yields s i x k → i + least ≤ k ∧ s.Reaches i k

section

variable {p p' : Parser τ α} {q : Parser τ β} {m n : Nat}

theorem Covers.mono (covers : Covers m p) (less : n ≤ m) : Covers n p := by
  intro s i x k yields
  obtain ⟨further, reaches⟩ := covers yields
  exact ⟨by omega, reaches⟩

theorem covers_item (accept : τ → Option α) (expected : List τ) :
    Covers 1 (item accept expected) := by
  rintro s i x k ⟨beside, result⟩
  unfold item at result
  split at result
  · cases result
  · rename_i t span present
    have inside := (Array.getElem?_eq_some_iff.mp present).choose
    split at result
    · cases result
      exact ⟨Nat.le_refl _, Nat.le_succ i, fun _ => inside⟩
    · cases result

theorem covers_filter (test : τ → Bool) : Covers 1 (filter test) :=
  covers_item _ _

theorem covers_ending : Covers 0 (ending : Parser τ Unit) := by
  intro s i x k yields
  obtain ⟨_, rfl⟩ := yields.of_ending
  exact ⟨Nat.le_refl k, Nat.le_refl k, by omega⟩

theorem Covers.map (covers : Covers n p) (f : α → β) : Covers n (p.map f) := by
  intro s i y k yields
  obtain ⟨x, yields, _⟩ := yields.of_map
  exact covers yields

theorem Covers.mapSpan (covers : Covers n p) (f : α → Span → β) : Covers n (p.mapSpan f) := by
  intro s i y k yields
  obtain ⟨x, yields, _⟩ := yields.of_mapSpan
  exact covers yields

theorem Covers.check (covers : Covers n p) (f : α → Except String β) : Covers n (p.check f) := by
  intro s i y k yields
  obtain ⟨x, yields, _⟩ := yields.of_check
  exact covers yields

theorem Covers.labelled (covers : Covers n p) (name : String) : Covers n (p.labelled name) :=
  fun _ _ _ _ yields => covers yields.of_labelled

theorem Covers.optional (covers : Covers n p) : Covers 0 p.optional := by
  intro s i x? k yields
  rcases yields.of_optional with ⟨x, rfl, here⟩ | ⟨rfl, rfl⟩
  · exact ⟨(covers here).2.1, (covers here).2⟩
  · exact ⟨Nat.le_refl k, Nat.le_refl k, by omega⟩

theorem covers_nested {body : Parser τ α → Parser τ α}
    (step : ∀ p : Parser τ α, Covers 0 p → Covers n (body p)) (depth : Nat) :
    Covers n (nested body depth) := by
  induction depth with
  | zero => exact fun _ _ _ _ yields => (not_yields_nested_zero yields).elim
  | succ depth ih => exact step _ (ih.mono (Nat.zero_le n))

variable [DecidableEq τ]

theorem covers_one (t : τ) : Covers 1 (one t) :=
  covers_item _ _

theorem covers_oneOf (ts : List τ) : Covers 1 (oneOf ts) :=
  covers_item _ _

theorem Covers.both (first : Covers m p) (second : Covers n q) : Covers (m + n) (p.both q) := by
  intro s i z k yields
  obtain ⟨j, left, right⟩ := yields.of_both
  obtain ⟨further, reaches⟩ := first left
  obtain ⟨further', reaches'⟩ := second right
  simp only [Source.Reaches] at reaches reaches' ⊢
  omega

theorem Covers.first (first : Covers m p) (second : Covers n q) : Covers (m + n) (p.first q) :=
  (first.both second).map Prod.fst

theorem Covers.second (first : Covers m p) (second : Covers n q) : Covers (m + n) (p.second q) :=
  (first.both second).map Prod.snd

theorem Covers.between (covers : Covers n p) (opening closing : τ) :
    Covers (1 + n + 1) (p.between (one opening) (one closing)) :=
  ((covers_one opening).second covers).first (covers_one closing)

theorem Covers.or (covers : Covers n p) (others : Covers n p') : Covers n (p.or p') := by
  intro s i x k yields
  rcases yields.of_or with yields | yields
  · exact covers yields
  · exact others yields

theorem covers_choice {ps : List (Parser τ α)} (covers : ∀ p ∈ ps, Covers n p) :
    Covers n (choice ps) := by
  have each (failures : Option (Failure τ)) {s : Source τ} {i k : Nat} {x : α}
      {beside : Option (Failure τ)}
      (result : (choiceFrom s i failures ps).result = .ok x k beside) :
      ∃ p ∈ ps, p.Yields s i x k := by
    clear covers
    induction ps generalizing failures with
    | nil => cases failures <;> cases result
    | cons p ps ih =>
        rw [choiceFrom] at result
        split at result
        · rename_i here
          cases result
          exact ⟨p, List.mem_cons_self, _, here⟩
        · obtain ⟨p', member, yields⟩ := ih _ result
          exact ⟨p', List.mem_cons_of_mem p member, yields⟩
  intro s i x k yields
  obtain ⟨p, member, yields⟩ := each none yields.choose_spec
  exact covers p member yields

omit [DecidableEq τ] in
theorem YieldsAll.covers (covers : Covers n p) {s : Source τ} {i k : Nat} {xs : List α}
    (all : p.YieldsAll s i xs k) : i + xs.length * n ≤ k ∧ s.Reaches i k := by
  induction all with
  | nil i => simp [Source.Reaches]
  | cons first others ih =>
      have here := covers first
      simp only [Source.Reaches, List.length_cons, Nat.succ_mul] at here ih ⊢
      omega

theorem Covers.many (covers : Covers n p) : Covers 0 p.many := by
  intro s i xs k yields
  exact ⟨(yields.of_many.covers covers).2.1, (yields.of_many.covers covers).2⟩

theorem Covers.several (covers : Covers n p) : Covers n p.several := by
  intro s i xs k yields
  obtain ⟨nonempty, all⟩ := yields.of_several
  obtain ⟨further, reaches⟩ := all.covers covers
  have least := Nat.le_mul_of_pos_left n (List.length_pos_iff.mpr nonempty)
  exact ⟨by omega, reaches⟩

omit [DecidableEq τ] in
theorem YieldsBehind.covers {separator : Parser τ β} (covers : Covers m p)
    (apart : Covers n separator) {s : Source τ} {i k : Nat} {xs : List α}
    (behind : YieldsBehind p separator s i xs k) : s.Reaches i k := by
  induction behind with
  | done i => exact ⟨Nat.le_refl i, by omega⟩
  | trailing last => exact (apart last).2
  | more here next others ih =>
      have here := (apart here).2
      have next := (covers next).2
      simp only [Source.Reaches] at here next ih ⊢
      omega

theorem Covers.separated {separator : Parser τ β} (covers : Covers m p)
    (apart : Covers n separator) : Covers 0 (p.separated separator) := by
  intro s i xs k yields
  rcases yields.of_separated with ⟨rfl, rfl⟩ | ⟨x, others, j, rfl, first, behind⟩
  · exact ⟨Nat.le_refl k, Nat.le_refl k, by omega⟩
  · have here := (covers first).2
    have there := behind.covers covers apart
    simp only [Source.Reaches] at here there ⊢
    omega

theorem Covers.skipUntil (covers : Covers n p) : Covers n p.skipUntil := by
  have from_steps {s : Source τ} {x : α} {k : Nat} (steps i : Nat)
      {beside after : Option (Failure τ)}
      (result : (skipFrom p s steps i beside).result = .ok x k after) :
      i + n ≤ k ∧ s.Reaches i k := by
    induction steps generalizing i beside after with
    | zero => exact covers ⟨_, result⟩
    | succ steps ih =>
        dsimp only [skipFrom] at result
        split at result
        · rename_i here
          cases result
          exact covers ⟨_, here⟩
        · split at result
          · have later := ih _ result
            simp only [Source.Reaches] at later ⊢
            omega
          · cases result
  exact fun _ i _ _ yields => from_steps _ i yields.choose_spec

end

variable {p : Parser τ α} {q : Parser τ β} {s : Source τ} {i j k : Nat} {x : α} {y : β}

theorem gives_iff : p.Gives s i x k ↔ p.Yields s i x k ∧ (p s i).recovered = [] := by
  constructor
  · rintro ⟨beside, given⟩
    exact ⟨⟨beside, congrArg Outcome.result given⟩, congrArg Outcome.recovered given⟩
  · rintro ⟨⟨beside, result⟩, clean⟩
    exact ⟨beside, by rw [← clean, ← result]⟩

theorem Gives.yields (gives : p.Gives s i x k) : p.Yields s i x k :=
  (gives_iff.mp gives).1

theorem gives_of_run (ran : p.run s = (some x, [])) : ∃ k, p.Gives s 0 x k := by
  obtain ⟨k, yields⟩ := yields_of_run ran
  obtain ⟨beside, result⟩ := yields
  simp only [run, result, Prod.mk.injEq] at ran
  exact ⟨k, gives_iff.mpr ⟨⟨beside, result⟩, ran.2⟩⟩

theorem Gives.of_map {f : α → β} (gives : (p.map f).Gives s i y k) :
    ∃ x, p.Gives s i x k ∧ f x = y := by
  obtain ⟨yields, clean⟩ := gives_iff.mp gives
  obtain ⟨x, given, made⟩ := yields.of_map
  obtain ⟨beside, result⟩ := given
  simp only [Parser.map, Outcome.map, result] at clean
  exact ⟨x, gives_iff.mpr ⟨⟨beside, result⟩, clean⟩, made⟩

theorem Gives.of_mapSpan {f : α → Span → β} (gives : (p.mapSpan f).Gives s i y k) :
    ∃ x, p.Gives s i x k ∧ f x (s.spanFrom i k) = y := by
  obtain ⟨yields, clean⟩ := gives_iff.mp gives
  obtain ⟨x, given, made⟩ := yields.of_mapSpan
  obtain ⟨beside, result⟩ := given
  simp only [Parser.mapSpan, result] at clean
  exact ⟨x, gives_iff.mpr ⟨⟨beside, result⟩, clean⟩, made⟩

theorem retryFrom_recovered {unrecovered : Outcome τ α} {failure : Failure τ} {steps : Nat}
    (failed : unrecovered.result = .failed failure)
    (yields : ∃ beside, (retryFrom p s unrecovered failure steps i).result = .ok x k beside) :
    (retryFrom p s unrecovered failure steps i).recovered ≠ [] := by
  induction steps generalizing i with
  | zero =>
      obtain ⟨beside, result⟩ := yields
      cases failed.symm.trans result
  | succ steps ih =>
      dsimp only [retryFrom] at yields ⊢
      split
      · exact List.append_ne_nil_of_right_ne_nil _ (List.cons_ne_nil failure [])
      · rename_i again
        simp only [again] at yields
        split
        · rename_i more
          rw [if_pos more] at yields
          exact ih yields
        · rename_i more
          rw [if_neg more] at yields
          obtain ⟨beside, result⟩ := yields
          cases failed.symm.trans result

theorem Gives.of_recovering (gives : p.recovering.Gives s i x k) : p.Gives s i x k := by
  obtain ⟨yields, clean⟩ := gives_iff.mp gives
  obtain ⟨beside, result⟩ := yields
  dsimp only [Parser.recovering] at clean result
  split at result
  · rename_i here
    simp only [here] at clean
    exact gives_iff.mpr ⟨⟨beside, result⟩, clean⟩
  · rename_i failure failed
    simp only [failed] at clean
    exact (retryFrom_recovered failed ⟨beside, result⟩ clean).elim

variable [DecidableEq τ]

theorem Gives.of_both {z : α × β} (gives : (p.both q).Gives s i z k) :
    ∃ j, p.Gives s i z.1 j ∧ q.Gives s j z.2 k := by
  obtain ⟨yields, clean⟩ := gives_iff.mp gives
  obtain ⟨j, ⟨beside, left⟩, beside', right⟩ := yields.of_both
  simp only [Parser.both, left, right, List.append_eq_nil_iff] at clean
  exact ⟨j, gives_iff.mpr ⟨⟨beside, left⟩, clean.1⟩, gives_iff.mpr ⟨⟨beside', right⟩, clean.2⟩⟩

theorem Gives.of_first (gives : (p.first q).Gives s i x k) :
    ∃ j y, p.Gives s i x j ∧ q.Gives s j y k := by
  obtain ⟨⟨x, y⟩, both, rfl⟩ := gives.of_map
  obtain ⟨j, left, right⟩ := both.of_both
  exact ⟨j, y, left, right⟩

theorem Gives.of_second (gives : (p.second q).Gives s i y k) :
    ∃ j x, p.Gives s i x j ∧ q.Gives s j y k := by
  obtain ⟨⟨x, y⟩, both, rfl⟩ := gives.of_map
  obtain ⟨j, left, right⟩ := both.of_both
  exact ⟨j, x, left, right⟩

theorem Gives.of_many (further : ∀ ⦃i x k⦄, p.Gives s i x k → i < k ∧ k ≤ s.items.size)
    {xs : List α} (gives : p.many.Gives s i xs k) : p.GivesAll s i xs k := by
  have from_steps (steps atLeast i : Nat) (xs : List α) (recovered : List (Failure τ))
      {beside after : Option (Failure τ)}
      (given : repeatFrom p s steps atLeast i recovered beside = ⟨[], .ok xs k after⟩) :
      recovered = [] ∧ p.GivesAll s i xs k := by
    induction steps generalizing atLeast i xs recovered beside after with
    | zero =>
        cases given
        exact ⟨rfl, .nil k⟩
    | succ steps ih =>
        dsimp only [repeatFrom] at given
        split at given
        · rename_i value next besideItem here
          unfold Outcome.map at given
          split at given
          · rename_i others later
            obtain ⟨clean, result⟩ := Outcome.mk.inj given
            cases result
            obtain ⟨none, all⟩ := ih _ _ _ _ (by rw [← clean, ← later])
            obtain ⟨none, none'⟩ := List.append_eq_nil_iff.mp none
            have first : p.Gives s i value next := gives_iff.mpr ⟨⟨_, here⟩, none'⟩
            exact ⟨none, .cons first (further first).1 (further first).2 all⟩
          · cases (Outcome.mk.inj given).2
        · split at given
          · cases (Outcome.mk.inj given).2
          · cases given
            exact ⟨rfl, .nil k⟩
  obtain ⟨beside, given⟩ := gives
  exact (from_steps _ _ _ _ _ given).2

end Parser

end StaticImage.Parsing
