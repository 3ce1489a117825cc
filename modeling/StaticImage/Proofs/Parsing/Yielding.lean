import StaticImage.Parsing.Parser

/-!
What a parser yields: the values its outcomes hold, whatever was recovered from on the way to them.
A value of a combined parser comes from values of its parts.
-/

namespace StaticImage.Parsing

namespace Source

variable {τ : Type} (s : Source τ)

def rest (position : Nat) : List τ :=
  (s.items.toList.map Prod.fst).drop position

theorem length_rest (i : Nat) : (s.rest i).length = s.items.size - i := by
  rw [rest, List.length_drop, List.length_map, Array.length_toList]

theorem head?_rest (i : Nat) : (s.rest i).head? = s.items[i]?.map Prod.fst := by
  rw [rest, List.head?_drop, List.getElem?_map, Array.getElem?_toList]

theorem rest_add (i n : Nat) : s.rest (i + n) = (s.rest i).drop n :=
  List.drop_drop.symm

variable {s} {i : Nat}

theorem rest_append {text after : List τ} (left : s.rest i = text ++ after) :
    s.rest (i + text.length) = after := by
  rw [rest_add, left, List.drop_left]

theorem rest_cons {t : τ} {after : List τ} (left : s.rest i = t :: after) :
    s.rest (i + 1) = after := by
  rw [rest_add, left, List.drop_one, List.tail_cons]

theorem item_of_rest {t : τ} {after : List τ} (left : s.rest i = t :: after) :
    ∃ span, s.items[i]? = some (t, span) := by
  have first := s.head?_rest i
  rw [left, List.head?_cons, eq_comm, Option.map_eq_some_iff] at first
  obtain ⟨⟨t, span⟩, present, rfl⟩ := first
  exact ⟨span, present⟩

theorem rest_of_item {t : τ} {span : Span} (present : s.items[i]? = some (t, span)) :
    s.rest i = t :: s.rest (i + 1) := by
  have first := s.head?_rest i
  rw [present, Option.map_some, List.head?_eq_some_iff] at first
  obtain ⟨after, left⟩ := first
  rw [left, rest_cons left]

theorem rest_eq_nil_iff : s.rest i = [] ↔ s.items[i]? = none := by
  rw [← List.head?_eq_none_iff, head?_rest, Option.map_eq_none_iff]

end Source

namespace Parser

variable {τ α β : Type}

def Yields (p : Parser τ α) (s : Source τ) (start : Nat) (value : α) (stop : Nat) : Prop :=
  ∃ beside, (p s start).result = .ok value stop beside

variable {p : Parser τ α} {q : Parser τ β} {s : Source τ} {i k : Nat} {x : α}

theorem yields_of_run {failures : List (Failure τ)} (ran : p.run s = (some x, failures)) :
    ∃ k, p.Yields s 0 x k := by
  simp only [run] at ran
  split at ran
  · rename_i value stop beside result
    cases ran
    exact ⟨stop, beside, result⟩
  · cases ran

theorem Yields.rest_of_item {accept : τ → Option α} {expected : List τ}
    (yields : (item accept expected).Yields s i x k) :
    ∃ t, accept t = some x ∧ s.rest i = t :: s.rest k := by
  obtain ⟨beside, result⟩ := yields
  unfold item at result
  split at result
  · cases result
  · rename_i t span present
    split at result
    · rename_i value accepted
      cases result
      exact ⟨t, accepted, Source.rest_of_item present⟩
    · cases result

theorem Yields.of_filter {test : τ → Bool} {t : τ} (yields : (filter test).Yields s i t k) :
    test t = true ∧ s.rest i = t :: s.rest k := by
  obtain ⟨u, accepted, left⟩ := yields.rest_of_item
  split at accepted
  · cases accepted
    exact ⟨‹_›, left⟩
  · cases accepted

theorem Yields.of_ending {u : Unit} (yields : (ending : Parser τ Unit).Yields s i u k) :
    s.rest i = [] ∧ k = i := by
  obtain ⟨beside, result⟩ := yields
  unfold ending at result
  split at result
  · rename_i absent
    cases result
    exact ⟨Source.rest_eq_nil_iff.mpr absent, rfl⟩
  · cases result

theorem Yields.of_map {f : α → β} {y : β} (yields : (p.map f).Yields s i y k) :
    ∃ x, p.Yields s i x k ∧ f x = y := by
  obtain ⟨beside, result⟩ := yields
  unfold Parser.map Outcome.map at result
  split at result
  · rename_i given
    cases result
    exact ⟨_, ⟨beside, given⟩, rfl⟩
  · cases result

theorem Yields.of_mapSpan {f : α → Span → β} {y : β} (yields : (p.mapSpan f).Yields s i y k) :
    ∃ x, p.Yields s i x k ∧ f x (s.spanFrom i k) = y := by
  obtain ⟨beside, result⟩ := yields
  dsimp only [mapSpan] at result
  split at result
  · rename_i given
    cases result
    exact ⟨_, ⟨beside, given⟩, rfl⟩
  · cases result

theorem Yields.of_check {f : α → Except String β} {y : β} (yields : (p.check f).Yields s i y k) :
    ∃ x, p.Yields s i x k ∧ f x = .ok y := by
  obtain ⟨beside, result⟩ := yields
  dsimp only [check] at result
  split at result
  · rename_i given
    split at result
    · rename_i passed
      cases result
      exact ⟨_, ⟨beside, given⟩, passed⟩
    · cases result
  · cases result

theorem Yields.of_labelled {name : String} (yields : (p.labelled name).Yields s i x k) :
    p.Yields s i x k := by
  obtain ⟨beside, result⟩ := yields
  unfold labelled Outcome.mapFailures at result
  split at result
  · rename_i given
    cases result
    exact ⟨_, given⟩
  · cases result

theorem Yields.of_optional {x? : Option α} (yields : p.optional.Yields s i x? k) :
    (∃ x, x? = some x ∧ p.Yields s i x k) ∨ x? = none ∧ k = i := by
  obtain ⟨beside, result⟩ := yields
  dsimp only [optional] at result
  split at result
  · rename_i given
    cases result
    exact Or.inl ⟨_, rfl, _, given⟩
  · cases result
    exact Or.inr ⟨rfl, rfl⟩

theorem yields_of_retryFrom {unrecovered : Outcome τ α} {failure : Failure τ} {steps i : Nat}
    {beside : Option (Failure τ)} (failed : unrecovered.result = .failed failure)
    (result : (retryFrom p s unrecovered failure steps i).result = .ok x k beside) :
    ∃ j, p.Yields s j x k := by
  induction steps generalizing i with
  | zero => cases failed.symm.trans result
  | succ steps ih =>
      dsimp only [retryFrom] at result
      split at result
      · rename_i given
        cases result
        exact ⟨i, _, given⟩
      · split at result
        · exact ih result
        · cases failed.symm.trans result

theorem Yields.of_recovering (yields : p.recovering.Yields s i x k) : ∃ j, p.Yields s j x k := by
  obtain ⟨beside, result⟩ := yields
  dsimp only [recovering] at result
  split at result
  · exact ⟨i, _, result⟩
  · exact yields_of_retryFrom ‹_› result

theorem Yields.of_recursive {body : Parser τ α → Parser τ α}
    (yields : (recursive body).Yields s i x k) : ∃ depth, (nested body depth).Yields s i x k :=
  ⟨_, yields⟩

theorem not_yields_nested_zero {body : Parser τ α → Parser τ α} :
    ¬ (nested body 0).Yields s i x k := by
  rintro ⟨_, ⟨⟩⟩

variable [DecidableEq τ]

theorem Yields.of_one {t u : τ} (yields : (one t).Yields s i u k) :
    u = t ∧ s.rest i = t :: s.rest k := by
  obtain ⟨v, accepted, left⟩ := yields.rest_of_item
  split at accepted
  · rename_i same
    cases accepted
    exact ⟨same, same ▸ left⟩
  · cases accepted

theorem Yields.of_oneOf {ts : List τ} {u : τ} (yields : (oneOf ts).Yields s i u k) :
    u ∈ ts ∧ s.rest i = u :: s.rest k := by
  obtain ⟨v, accepted, left⟩ := yields.rest_of_item
  split at accepted
  · rename_i member
    cases accepted
    exact ⟨member, left⟩
  · cases accepted

theorem Yields.of_both {z : α × β} (yields : (p.both q).Yields s i z k) :
    ∃ j, p.Yields s i z.1 j ∧ q.Yields s j z.2 k := by
  obtain ⟨beside, result⟩ := yields
  dsimp only [both] at result
  split at result
  · cases result
  · rename_i first
    split at result
    · rename_i second
      cases result
      exact ⟨_, ⟨_, first⟩, ⟨_, second⟩⟩
    · cases result

theorem Yields.of_first (yields : (p.first q).Yields s i x k) :
    ∃ j y, p.Yields s i x j ∧ q.Yields s j y k := by
  obtain ⟨⟨x, y⟩, both, rfl⟩ := yields.of_map
  obtain ⟨j, left, right⟩ := both.of_both
  exact ⟨j, y, left, right⟩

theorem Yields.of_second {y : β} (yields : (p.second q).Yields s i y k) :
    ∃ j x, p.Yields s i x j ∧ q.Yields s j y k := by
  obtain ⟨⟨x, y⟩, both, rfl⟩ := yields.of_map
  obtain ⟨j, left, right⟩ := both.of_both
  exact ⟨j, x, left, right⟩

theorem Yields.of_between {opening closing : τ}
    (yields : (p.between (one opening) (one closing)).Yields s i x k) :
    ∃ a b, s.rest i = opening :: s.rest a ∧ p.Yields s a x b ∧ s.rest b = closing :: s.rest k := by
  obtain ⟨b, _, inner, closes⟩ := yields.of_first
  obtain ⟨a, _, opens, inside⟩ := inner.of_second
  exact ⟨a, b, opens.of_one.2, inside, closes.of_one.2⟩

theorem Yields.of_or {p' : Parser τ α} (yields : (p.or p').Yields s i x k) :
    p.Yields s i x k ∨ p'.Yields s i x k := by
  obtain ⟨beside, result⟩ := yields
  dsimp only [Parser.or] at result
  split at result
  · rename_i first
    split at result
    · cases result
      exact Or.inl ⟨_, first⟩
    · split at result
      · rename_i second
        split at result
        · cases result
          exact Or.inr ⟨_, second⟩
        · exact Or.inl ⟨_, result⟩
      · exact Or.inl ⟨_, result⟩
  · split at result
    · rename_i second
      cases result
      exact Or.inr ⟨_, second⟩
    · split at result
      · cases result
      · split at result <;> cases result

inductive YieldsAll (p : Parser τ α) (s : Source τ) : Nat → List α → Nat → Prop where
  | nil (i : Nat) : YieldsAll p s i [] i
  | cons {i j k : Nat} {x : α} {xs : List α} (first : p.Yields s i x j)
      (others : YieldsAll p s j xs k) : YieldsAll p s i (x :: xs) k

theorem yieldsAll_of_repeatFrom {steps atLeast i k : Nat} {recovered : List (Failure τ)}
    {beside after : Option (Failure τ)} {xs : List α}
    (result : (repeatFrom p s steps atLeast i recovered beside).result = .ok xs k after) :
    p.YieldsAll s i xs k := by
  induction steps generalizing atLeast i recovered beside xs after with
  | zero =>
      cases result
      exact .nil _
  | succ steps ih =>
      dsimp only [repeatFrom] at result
      split at result
      · rename_i first
        unfold Outcome.map at result
        split at result
        · rename_i others
          cases result
          exact .cons ⟨_, first⟩ (ih others)
        · cases result
      · split at result
        · cases result
        · cases result
          exact .nil _

theorem Yields.of_many {xs : List α} (yields : p.many.Yields s i xs k) : p.YieldsAll s i xs k :=
  yieldsAll_of_repeatFrom yields.choose_spec

theorem Yields.of_several {xs : List α} (yields : p.several.Yields s i xs k) :
    xs ≠ [] ∧ p.YieldsAll s i xs k := by
  obtain ⟨beside, result⟩ := yields
  refine ⟨?_, yieldsAll_of_repeatFrom result⟩
  rintro rfl
  dsimp only [several, repeatFrom] at result
  split at result
  · unfold Outcome.map at result
    split at result <;> cases result
  · cases result

inductive YieldsBehind (p : Parser τ α) (separator : Parser τ β) (s : Source τ) :
    Nat → List α → Nat → Prop where
  | done (i : Nat) : YieldsBehind p separator s i [] i
  | trailing {i k : Nat} {y : β} (last : separator.Yields s i y k) :
      YieldsBehind p separator s i [] k
  | more {i j m k : Nat} {y : β} {x : α} {xs : List α} (apart : separator.Yields s i y j)
      (next : p.Yields s j x m) (others : YieldsBehind p separator s m xs k) :
      YieldsBehind p separator s i (x :: xs) k

theorem yieldsBehind_of_separatedFrom {separator : Parser τ β} {steps i k : Nat}
    {recovered : List (Failure τ)} {beside after : Option (Failure τ)} {xs : List α}
    (result : (separatedFrom p separator s steps i recovered beside).result = .ok xs k after) :
    YieldsBehind p separator s i xs k := by
  induction steps generalizing i recovered beside xs after with
  | zero =>
      cases result
      exact .done _
  | succ steps ih =>
      dsimp only [separatedFrom] at result
      split at result
      · rename_i next
        unfold Outcome.map at result
        split at result
        · rename_i others
          cases result
          obtain ⟨j, y, apart, next⟩ := Yields.of_second ⟨_, next⟩
          exact .more apart next (ih others)
        · cases result
      · unfold trailing at result
        split at result
        · rename_i last
          cases result
          exact .trailing ⟨_, last⟩
        · cases result
          exact .done _

theorem Yields.of_separated {separator : Parser τ β} {xs : List α}
    (yields : (p.separated separator).Yields s i xs k) :
    (xs = [] ∧ k = i) ∨ ∃ x others j, xs = x :: others ∧ p.Yields s i x j ∧
      YieldsBehind p separator s j others k := by
  obtain ⟨beside, result⟩ := yields
  dsimp only [separated] at result
  split at result
  · rename_i first
    unfold Outcome.map at result
    split at result
    · rename_i others
      cases result
      exact Or.inr ⟨_, _, _, rfl, ⟨_, first⟩, yieldsBehind_of_separatedFrom others⟩
    · cases result
  · cases result
    exact Or.inl ⟨rfl, rfl⟩

end Parser

end StaticImage.Parsing
