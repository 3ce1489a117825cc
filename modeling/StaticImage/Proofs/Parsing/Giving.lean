import StaticImage.Proofs.Parsing.Yielding

namespace StaticImage.Parsing

namespace Parser

variable {τ α β : Type}

def Gives (p : Parser τ α) (s : Source τ) (start : Nat) (value : α) (stop : Nat) : Prop :=
  ∃ beside, p s start = ⟨[], .ok value stop beside⟩

def Fails (p : Parser τ α) (s : Source τ) (position : Nat) : Prop :=
  ∃ failure, (p s position).result = .failed failure

variable {p : Parser τ α} {q : Parser τ β} {s : Source τ} {i j k : Nat} {x : α} {y : β}

theorem Gives.run (gives : p.Gives s 0 x k) : p.run s = (some x, []) := by
  obtain ⟨beside, given⟩ := gives
  simp only [Parser.run, given]

theorem Gives.unique {x' : α} (gives : p.Gives s i x k) (again : p.Gives s i x' j) :
    x = x' ∧ k = j := by
  obtain ⟨beside, given⟩ := gives
  obtain ⟨beside', given'⟩ := again
  cases given.symm.trans given'
  exact ⟨rfl, rfl⟩

theorem Fails.not_gives (fails : p.Fails s i) : ¬ p.Gives s i x k := by
  rintro ⟨beside, given⟩
  obtain ⟨failure, failed⟩ := fails
  rw [given] at failed
  cases failed

section

variable {t : τ} {after : List τ}

theorem gives_item {accept : τ → Option α} {expected : List τ} (left : s.rest i = t :: after)
    (accepted : accept t = some x) : (item accept expected).Gives s i x (i + 1) := by
  obtain ⟨span, present⟩ := Source.item_of_rest left
  refine ⟨none, ?_⟩
  simp only [item, present, accepted]

theorem fails_item {accept : τ → Option α} {expected : List τ}
    (refused : ∀ t ∈ (s.rest i).head?, accept t = none) : (item accept expected).Fails s i := by
  rw [Source.head?_rest] at refused
  unfold Fails item
  cases present : s.items[i]? with
  | none => exact ⟨_, rfl⟩
  | some there =>
      rw [present] at refused
      simp only [refused there.1 rfl]
      exact ⟨_, rfl⟩

theorem gives_ending (left : s.rest i = []) : (ending : Parser τ Unit).Gives s i () i := by
  refine ⟨none, ?_⟩
  simp only [ending, Source.rest_eq_nil_iff.mp left]

theorem fails_ending (left : s.rest i = t :: after) : (ending : Parser τ Unit).Fails s i := by
  obtain ⟨span, present⟩ := Source.item_of_rest left
  simp only [Fails, ending, present]
  exact ⟨_, rfl⟩

end

theorem Gives.map (gives : p.Gives s i x k) (f : α → β) : (p.map f).Gives s i (f x) k := by
  obtain ⟨beside, given⟩ := gives
  refine ⟨beside, ?_⟩
  simp only [Parser.map, given, Outcome.map]

theorem Fails.map (fails : p.Fails s i) (f : α → β) : (p.map f).Fails s i := by
  obtain ⟨failure, failed⟩ := fails
  refine ⟨failure, ?_⟩
  simp only [Parser.map, Outcome.map, failed]

theorem Gives.mapSpan (gives : p.Gives s i x k) (f : α → Span → β) :
    (p.mapSpan f).Gives s i (f x (s.spanFrom i k)) k := by
  obtain ⟨beside, given⟩ := gives
  refine ⟨beside, ?_⟩
  simp only [Parser.mapSpan, given]

theorem Fails.mapSpan (fails : p.Fails s i) (f : α → Span → β) : (p.mapSpan f).Fails s i := by
  obtain ⟨failure, failed⟩ := fails
  refine ⟨failure, ?_⟩
  simp only [Parser.mapSpan, failed]

theorem Gives.check (gives : p.Gives s i x k) {f : α → Except String β} (passed : f x = .ok y) :
    (p.check f).Gives s i y k := by
  obtain ⟨beside, given⟩ := gives
  refine ⟨beside, ?_⟩
  simp only [Parser.check, given, passed]

theorem Gives.check_fails (gives : p.Gives s i x k) {f : α → Except String β} {reason : String}
    (refused : f x = .error reason) : (p.check f).Fails s i := by
  obtain ⟨beside, given⟩ := gives
  simp only [Fails, Parser.check, given, refused]
  exact ⟨_, rfl⟩

theorem Fails.check (fails : p.Fails s i) (f : α → Except String β) : (p.check f).Fails s i := by
  obtain ⟨failure, failed⟩ := fails
  refine ⟨failure, ?_⟩
  simp only [Parser.check, failed]

theorem Gives.labelled (gives : p.Gives s i x k) (name : String) :
    (p.labelled name).Gives s i x k := by
  obtain ⟨beside, given⟩ := gives
  refine ⟨beside.map (Failure.named name), ?_⟩
  simp only [Parser.labelled, given, Outcome.mapFailures, List.map_nil]

theorem Fails.labelled (fails : p.Fails s i) (name : String) : (p.labelled name).Fails s i := by
  obtain ⟨failure, failed⟩ := fails
  refine ⟨failure.named name, ?_⟩
  simp only [Parser.labelled, Outcome.mapFailures, failed]

theorem Gives.optional (gives : p.Gives s i x k) : p.optional.Gives s i (some x) k := by
  obtain ⟨beside, given⟩ := gives
  refine ⟨beside, ?_⟩
  simp only [Parser.optional, given]

theorem Fails.optional (fails : p.Fails s i) : p.optional.Gives s i none i := by
  obtain ⟨failure, failed⟩ := fails
  refine ⟨some failure, ?_⟩
  simp only [Parser.optional, failed]

theorem Gives.recovering (gives : p.Gives s i x k) : p.recovering.Gives s i x k := by
  obtain ⟨beside, given⟩ := gives
  refine ⟨beside, ?_⟩
  simp only [Parser.recovering, given]

theorem Fails.recovering (fails : p.Fails s i) (left : s.rest i = []) : p.recovering.Fails s i := by
  obtain ⟨failure, failed⟩ := fails
  have outside : ¬ i < s.items.size := by
    have length := s.length_rest i
    rw [left, List.length_nil] at length
    omega
  refine ⟨failure, ?_⟩
  simp only [Parser.recovering, retryFrom, failed, outside, if_false]

variable [DecidableEq τ]

theorem gives_one {t : τ} {after : List τ} (left : s.rest i = t :: after) :
    (one t).Gives s i t (i + 1) :=
  gives_item left (if_pos rfl)

theorem Gives.both (first : p.Gives s i x j) (second : q.Gives s j y k) :
    (p.both q).Gives s i (x, y) k := by
  obtain ⟨beside, given⟩ := first
  obtain ⟨beside', given'⟩ := second
  refine ⟨Failure.either beside beside', ?_⟩
  simp only [Parser.both, given, given', List.append_nil]

theorem Fails.both (fails : p.Fails s i) (q : Parser τ β) : (p.both q).Fails s i := by
  obtain ⟨failure, failed⟩ := fails
  refine ⟨failure, ?_⟩
  simp only [Parser.both, failed]

theorem Gives.both_fails (first : p.Gives s i x j) (second : q.Fails s j) :
    (p.both q).Fails s i := by
  obtain ⟨beside, given⟩ := first
  obtain ⟨failure, failed⟩ := second
  unfold Fails
  simp only [Parser.both, given, failed]
  exact ⟨_, rfl⟩

theorem Gives.first (gives : p.Gives s i x j) (next : q.Gives s j y k) :
    (p.first q).Gives s i x k :=
  (gives.both next).map Prod.fst

theorem Gives.second (gives : p.Gives s i x j) (next : q.Gives s j y k) :
    (p.second q).Gives s i y k :=
  (gives.both next).map Prod.snd

section

variable {p' : Parser τ α}

theorem Gives.or (gives : p.Gives s i x k) (p' : Parser τ α) : (p.or p').Gives s i x k := by
  obtain ⟨beside, given⟩ := gives
  refine ⟨beside, ?_⟩
  simp only [Parser.or, given, List.isEmpty_nil, if_true]

theorem Fails.or_gives (fails : p.Fails s i) (gives : p'.Gives s i x k) :
    (p.or p').Gives s i x k := by
  obtain ⟨failure, failed⟩ := fails
  obtain ⟨beside, given⟩ := gives
  refine ⟨beside, ?_⟩
  simp only [Parser.or, failed, given]

theorem Fails.or (fails : p.Fails s i) (others : p'.Fails s i) : (p.or p').Fails s i := by
  obtain ⟨failure, failed⟩ := fails
  obtain ⟨failure', failed'⟩ := others
  unfold Fails
  simp only [Parser.or, failed, failed']
  split
  · exact ⟨_, rfl⟩
  · split
    · exact ⟨_, rfl⟩
    · exact ⟨_, rfl⟩

end

def GivesOne (ps : List (Parser τ α)) (s : Source τ) (start : Nat) (value : α) (stop : Nat) :
    Prop :=
  ∀ failures, ∃ beside, choiceFrom s start failures ps = ⟨[], .ok value stop beside⟩

variable {ps : List (Parser τ α)}

theorem Gives.here (gives : p.Gives s i x k) (ps : List (Parser τ α)) :
    GivesOne (p :: ps) s i x k := by
  obtain ⟨beside, given⟩ := gives
  intro failures
  refine ⟨beside, ?_⟩
  cases failures with
  | none => simp only [choiceFrom, given]
  | some failure => simp only [choiceFrom, given]

theorem Fails.there (fails : p.Fails s i) (others : GivesOne ps s i x k) :
    GivesOne (p :: ps) s i x k := by
  obtain ⟨failure, failed⟩ := fails
  intro failures
  obtain ⟨beside, later⟩ := others (Failure.either failures (some failure))
  refine ⟨beside, ?_⟩
  cases failures with
  | none => simpa only [choiceFrom, failed] using later
  | some before => simpa only [choiceFrom, failed] using later

theorem GivesOne.choice (one : GivesOne ps s i x k) : (Parser.choice ps).Gives s i x k :=
  one none

theorem Gives.skipUntil (gives : p.Gives s j x k) (skipped : ∀ m, i ≤ m → m < j → p.Fails s m)
    (before : i ≤ j) (inside : i < j → j ≤ s.items.size) : p.skipUntil.Gives s i x k := by
  have from_steps (steps m : Nat) (beside : Option (Failure τ)) (start : i ≤ m) (stop : m ≤ j)
      (enough : j ≤ m + steps) : ∃ after, skipFrom p s steps m beside = ⟨[], .ok x k after⟩ := by
    induction steps generalizing m beside with
    | zero =>
        obtain rfl : m = j := by omega
        exact gives
    | succ steps ih =>
        rcases Nat.eq_or_lt_of_le stop with rfl | further
        · obtain ⟨after, given⟩ := gives
          refine ⟨Failure.either beside after, ?_⟩
          simp only [skipFrom, given]
        · obtain ⟨failure, failed⟩ := skipped m start further
          have more : m < s.items.size := by omega
          obtain ⟨after, later⟩ := ih (m + 1) (Failure.either beside (some failure)) (by omega)
            (by omega) (by omega)
          refine ⟨after, ?_⟩
          simp only [skipFrom, failed, more, if_true, later]
  exact from_steps _ i none (Nat.le_refl i) before (by omega)

inductive GivesAll (p : Parser τ α) (s : Source τ) : Nat → List α → Nat → Prop where
  | nil (i : Nat) : GivesAll p s i [] i
  | cons {i j k : Nat} {x : α} {xs : List α} (first : p.Gives s i x j) (further : i < j)
      (inside : j ≤ s.items.size) (others : GivesAll p s j xs k) : GivesAll p s i (x :: xs) k

theorem GivesAll.repeatFrom {xs : List α} (all : p.GivesAll s i xs k) (stops : p.Fails s k)
    (steps atLeast : Nat) (recovered : List (Failure τ)) (beside : Option (Failure τ))
    (enough : s.items.size - i < steps) (least : atLeast ≤ xs.length) (none : recovered = []) :
    ∃ after, Parser.repeatFrom p s steps atLeast i recovered beside = ⟨[], .ok xs k after⟩ := by
  subst none
  induction all generalizing steps atLeast beside with
  | nil i =>
      obtain ⟨failure, failed⟩ := stops
      obtain rfl : atLeast = 0 := Nat.le_zero.mp least
      cases steps with
      | zero => omega
      | succ steps =>
          simp only [Parser.repeatFrom, failed, Nat.lt_irrefl, if_false]
          exact ⟨_, rfl⟩
  | cons first further inside others ih =>
      obtain ⟨besideItem, given⟩ := first
      cases steps with
      | zero => omega
      | succ steps =>
          rw [List.length_cons] at least
          obtain ⟨after, later⟩ := ih stops steps (atLeast - 1)
            (Failure.either beside besideItem) (by omega) (by omega)
          refine ⟨after, ?_⟩
          simp only [Parser.repeatFrom, given, List.append_nil, later, Outcome.map]

theorem GivesAll.many {xs : List α} (all : p.GivesAll s i xs k) (stops : p.Fails s k) :
    p.many.Gives s i xs k :=
  all.repeatFrom stops _ 0 [] none (by omega) (Nat.zero_le _) rfl

theorem GivesAll.several {xs : List α} (all : p.GivesAll s i xs k) (stops : p.Fails s k)
    (nonempty : xs ≠ []) : p.several.Gives s i xs k :=
  all.repeatFrom stops _ 1 [] none (by omega) (List.length_pos_iff.mpr nonempty) rfl

theorem Fails.several (fails : p.Fails s i) : p.several.Fails s i := by
  obtain ⟨failure, failed⟩ := fails
  refine ⟨failure, ?_⟩
  simp only [Parser.several, repeatFrom, failed, Nat.zero_lt_one, if_true]

inductive GivesBehind (p : Parser τ α) (separator : Parser τ β) (s : Source τ) :
    Nat → List α → Nat → Prop where
  | done {i : Nat} (none : separator.Fails s i) : GivesBehind p separator s i [] i
  | trailing {i k : Nat} {y : β} (last : separator.Gives s i y k) (none : p.Fails s k) :
      GivesBehind p separator s i [] k
  | more {i j m k : Nat} {y : β} {x : α} {xs : List α} (apart : separator.Gives s i y j)
      (next : p.Gives s j x m) (further : i < m) (inside : m ≤ s.items.size)
      (others : GivesBehind p separator s m xs k) : GivesBehind p separator s i (x :: xs) k

theorem GivesBehind.separatedFrom {separator : Parser τ β} {xs : List α}
    (behind : GivesBehind p separator s i xs k) (steps : Nat) (beside : Option (Failure τ))
    (enough : s.items.size - i < steps) :
    ∃ after, Parser.separatedFrom p separator s steps i [] beside = ⟨[], .ok xs k after⟩ := by
  induction behind generalizing steps beside with
  | done none =>
      cases steps with
      | zero => omega
      | succ steps =>
          obtain ⟨failure, failed⟩ := (none.both p).map Prod.snd
          obtain ⟨failure', failed'⟩ := none
          simp only [Parser.separatedFrom, second, failed, Parser.trailing, failed']
          exact ⟨_, rfl⟩
  | trailing last none =>
      cases steps with
      | zero => omega
      | succ steps =>
          obtain ⟨failure, failed⟩ := (last.both_fails none).map Prod.snd
          obtain ⟨besideSeparator, given⟩ := last
          simp only [Parser.separatedFrom, second, failed, Parser.trailing, given]
          exact ⟨_, rfl⟩
  | more apart next further inside others ih =>
      cases steps with
      | zero => omega
      | succ steps =>
          obtain ⟨besideItem, given⟩ := apart.second next
          obtain ⟨after, later⟩ := ih steps (Failure.either beside besideItem) (by omega)
          refine ⟨after, ?_⟩
          simp only [Parser.separatedFrom, given, List.append_nil, later, Outcome.map]

theorem Gives.separated {separator : Parser τ β} {xs : List α} (gives : p.Gives s i x j)
    (behind : GivesBehind p separator s j xs k) :
    (p.separated separator).Gives s i (x :: xs) k := by
  obtain ⟨beside, given⟩ := gives
  obtain ⟨after, later⟩ := behind.separatedFrom (s.items.size - j + 1) beside (by omega)
  refine ⟨after, ?_⟩
  simp only [Parser.separated, given, later, Outcome.map]

theorem Fails.separated (fails : p.Fails s i) (separator : Parser τ β) :
    (p.separated separator).Gives s i [] i := by
  obtain ⟨failure, failed⟩ := fails
  refine ⟨some failure, ?_⟩
  simp only [Parser.separated, failed]

end Parser

end StaticImage.Parsing
