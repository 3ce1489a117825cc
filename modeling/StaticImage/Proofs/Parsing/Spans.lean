import StaticImage.Proofs.Parsing.Advancing

namespace StaticImage

structure Span.Within (inner outer : Span) : Prop where
  after : outer.start ≤ inner.start
  filled : inner.start < inner.stop
  before : inner.stop ≤ outer.stop

structure Span.Encloses (outer : Span) (parts : List Span) : Prop where
  within : ∀ part ∈ parts, part.Within outer
  apart : parts.Pairwise fun a b => a.stop ≤ b.start

theorem Span.Within.trans {a b c : Span} (inner : a.Within b) (outer : b.Within c) : a.Within c :=
  ⟨Nat.le_trans outer.after inner.after, inner.filled, Nat.le_trans inner.before outer.before⟩

namespace Parsing

variable {τ : Type}

structure Source.Orderly (s : Source τ) (length : Nat) : Prop where
  filled : ∀ i < s.items.size, (s.spanAt i).start < (s.spanAt i).stop
  apart : ∀ i j, i < j → j < s.items.size → (s.spanAt i).stop ≤ (s.spanAt j).start
  bounded : ∀ i < s.items.size, (s.spanAt i).stop ≤ length

/-- The spans of what is taken between two positions, in order. -/
inductive Source.Parts (s : Source τ) : Nat → List Span → Nat → Prop where
  | none {i k : Nat} (reaches : s.Reaches i k) : Parts s i [] k
  | next {i a b k : Nat} {spans : List Span} (before : s.Reaches i a) (further : a < b)
      (inside : b ≤ s.items.size) (others : Parts s b spans k) :
      Parts s i (s.spanFrom a b :: spans) k

namespace Source

variable {s : Source τ} {i j k : Nat} {spans more : List Span}

theorem Parts.single (further : i < k) (inside : k ≤ s.items.size) :
    s.Parts i [s.spanFrom i k] k :=
  .next ⟨Nat.le_refl i, by omega⟩ further inside (.none ⟨Nat.le_refl k, by omega⟩)

theorem Parts.reaches (parts : s.Parts i spans k) : s.Reaches i k := by
  induction parts with
  | none reaches => exact reaches
  | next before further inside others ih =>
      simp only [Reaches] at before ih ⊢
      omega

theorem Parts.from_before (parts : s.Parts j spans k) (reaches : s.Reaches i j) :
    s.Parts i spans k := by
  cases parts with
  | none later =>
      refine .none ?_
      simp only [Reaches] at reaches later ⊢
      omega
  | next before further inside others =>
      refine .next ?_ further inside others
      simp only [Reaches] at reaches before ⊢
      omega

theorem Parts.append (parts : s.Parts i spans j) (others : s.Parts j more k) :
    s.Parts i (spans ++ more) k := by
  induction parts with
  | none reaches => exact others.from_before reaches
  | next before further inside _ ih => exact .next before further inside (ih others)

theorem Parts.mem (parts : s.Parts i spans k) {span : Span} (member : span ∈ spans) :
    ∃ a b, span = s.spanFrom a b ∧ i ≤ a ∧ a < b ∧ b ≤ k ∧ b ≤ s.items.size := by
  induction parts with
  | none => cases member
  | next before further inside others ih =>
      rcases List.mem_cons.mp member with rfl | later
      · exact ⟨_, _, rfl, before.1, further, others.reaches.1, inside⟩
      · obtain ⟨a, b, same, start, proper, stop, bound⟩ := ih later
        exact ⟨a, b, same, by have := before.1; omega, proper, stop, bound⟩

theorem spanFrom_of_lt (further : i < k) :
    s.spanFrom i k = ⟨(s.spanAt i).start, (s.spanAt (k - 1)).stop⟩ := by
  rw [spanFrom, Nat.max_eq_left (by omega)]

theorem spanAt_mem (inside : i < s.items.size) :
    (s.items.toList.map Prod.snd)[i]? = some (s.spanAt i) := by
  simp [spanAt, inside]

variable {length : Nat}

theorem orderly_of_encloses
    (encloses : (⟨0, length⟩ : Span).Encloses (s.items.toList.map Prod.snd)) :
    s.Orderly length := by
  have within (i : Nat) (inside : i < s.items.size) :=
    encloses.within _ (List.mem_of_getElem? (spanAt_mem inside))
  refine ⟨fun i inside => (within i inside).filled, fun i j less inside => ?_,
    fun i inside => (within i inside).before⟩
  have apart := List.pairwise_iff_getElem.mp encloses.apart i j (by simp; omega) (by simpa) less
  have here := spanAt_mem (s := s) (i := i) (by omega)
  have there := spanAt_mem inside
  rw [List.getElem?_eq_getElem (by simp; omega), Option.some.injEq] at here
  rw [List.getElem?_eq_getElem (by simpa), Option.some.injEq] at there
  rwa [here, there] at apart

variable (orderly : s.Orderly length)

include orderly

theorem Orderly.start_le (before : i ≤ j) (inside : j < s.items.size) :
    (s.spanAt i).start ≤ (s.spanAt j).start := by
  rcases Nat.eq_or_lt_of_le before with rfl | less
  · exact Nat.le_refl _
  · have filled := orderly.filled i (by omega)
    have apart := orderly.apart i j less inside
    omega

theorem Orderly.stop_le (before : i ≤ j) (inside : j < s.items.size) :
    (s.spanAt i).stop ≤ (s.spanAt j).stop := by
  rcases Nat.eq_or_lt_of_le before with rfl | less
  · exact Nat.le_refl _
  · have filled := orderly.filled j inside
    have apart := orderly.apart i j less inside
    omega

theorem Orderly.within {a b : Nat} (start : i ≤ a) (further : a < b) (stop : b ≤ k)
    (inside : k ≤ s.items.size) : (s.spanFrom a b).Within (s.spanFrom i k) := by
  rw [spanFrom_of_lt further, spanFrom_of_lt (by omega)]
  have filled := orderly.filled a (by omega)
  have later := orderly.stop_le (i := a) (j := b - 1) (by omega) (by omega)
  exact ⟨orderly.start_le start (by omega), Nat.lt_of_lt_of_le filled later,
    orderly.stop_le (by omega) (by omega)⟩

theorem Parts.apart (parts : s.Parts i spans k) :
    spans.Pairwise fun a b => a.stop ≤ b.start := by
  induction parts with
  | none => exact .nil
  | next before further inside others ih =>
      refine List.pairwise_cons.mpr ⟨fun span member => ?_, ih⟩
      obtain ⟨a, b, rfl, start, proper, stop, bound⟩ := others.mem member
      rw [spanFrom_of_lt further, spanFrom_of_lt proper]
      exact orderly.apart _ _ (by omega) (by omega)

theorem Parts.enclosed (parts : s.Parts i spans k) (inside : k ≤ s.items.size) :
    (s.spanFrom i k).Encloses spans := by
  refine ⟨fun span member => ?_, parts.apart orderly⟩
  obtain ⟨a, b, rfl, start, proper, stop, _⟩ := parts.mem member
  exact orderly.within start proper stop inside

theorem Parts.bounded (parts : s.Parts i spans k) : (⟨0, length⟩ : Span).Encloses spans := by
  refine ⟨fun span member => ?_, parts.apart orderly⟩
  obtain ⟨a, b, rfl, _, proper, _, bound⟩ := parts.mem member
  have self := orderly.within (Nat.le_refl a) proper (Nat.le_refl b) bound
  rw [spanFrom_of_lt proper] at self ⊢
  exact ⟨Nat.zero_le _, self.filled, orderly.bounded (b - 1) (by omega)⟩

end Source

namespace Parser

variable {α β : Type}

/-- The spans of the parts of what is yielded come in order, and something holds of it. -/
def Lays (p : Parser τ α) (s : Source τ) (spans : α → List Span) (holds : α → Prop) : Prop :=
  ∀ ⦃i : Nat⦄ ⦃x : α⦄ ⦃k : Nat⦄, p.Yields s i x k → s.Parts i (spans x) k ∧ holds x

variable {p : Parser τ α} {q : Parser τ β} {s : Source τ} {spans : α → List Span}
  {more : β → List Span} {holds : α → Prop} {also : β → Prop} {n : Nat}

theorem Yields.of_item {accept : τ → Option α} {expected : List τ} {i k : Nat} {x : α}
    (yields : (item accept expected).Yields s i x k) :
    ∃ t, accept t = some x ∧ s.items[i]? = some (t, s.spanFrom i k) := by
  obtain ⟨beside, result⟩ := yields
  unfold item at result
  split at result
  · cases result
  · rename_i t span present
    split at result
    · rename_i value accepted
      cases result
      refine ⟨t, accepted, ?_⟩
      simp [Source.spanFrom, Source.spanAt, present]
    · cases result

theorem Covers.lays (covers : Covers n p) : p.Lays s (fun _ => []) fun _ => True :=
  fun _ _ _ yields => ⟨.none (covers yields).2, trivial⟩

theorem Lays.map (lays : p.Lays s spans holds) (f : α → β) (same : ∀ x, more (f x) = spans x)
    (imp : ∀ x, holds x → also (f x)) : (p.map f).Lays s more also := by
  intro i y k yields
  obtain ⟨x, made, rfl⟩ := yields.of_map
  obtain ⟨parts, held⟩ := lays made
  exact ⟨same x ▸ parts, imp x held⟩

theorem Lays.labelled (lays : p.Lays s spans holds) (name : String) :
    (p.labelled name).Lays s spans holds :=
  fun _ _ _ yields => lays yields.of_labelled

theorem Lays.mapSpan (lays : p.Lays s spans holds) (covers : Covers 1 p) {length : Nat}
    (orderly : s.Orderly length) (f : α → Span → β) (same : ∀ x span, more (f x span) = [span])
    (imp : ∀ x span, span.Encloses (spans x) → holds x → also (f x span)) :
    (p.mapSpan f).Lays s more also := by
  intro i y k yields
  obtain ⟨x, made, rfl⟩ := yields.of_mapSpan
  obtain ⟨parts, held⟩ := lays made
  obtain ⟨further, _, bound⟩ := covers made
  rw [same]
  exact ⟨.single further (bound further), imp x _ (parts.enclosed orderly (bound further)) held⟩

theorem Lays.optional (lays : p.Lays s spans holds) :
    p.optional.Lays s (fun x? => x?.toList.flatMap spans) fun x? => ∀ x ∈ x?, holds x := by
  intro i x? k yields
  rcases yields.of_optional with ⟨x, rfl, here⟩ | ⟨rfl, rfl⟩
  · obtain ⟨parts, held⟩ := lays here
    refine ⟨by simpa using parts, fun y same => ?_⟩
    cases same
    exact held
  · exact ⟨.none ⟨Nat.le_refl k, by omega⟩, nofun⟩

variable [DecidableEq τ]

theorem Lays.both (first : p.Lays s spans holds) (second : q.Lays s more also) :
    (p.both q).Lays s (fun z => spans z.1 ++ more z.2) fun z => holds z.1 ∧ also z.2 := by
  intro i z k yields
  obtain ⟨j, left, right⟩ := yields.of_both
  obtain ⟨parts, held⟩ := first left
  obtain ⟨others, held'⟩ := second right
  exact ⟨parts.append others, held, held'⟩

theorem Lays.first (lays : p.Lays s spans holds) (covers : Covers n q) :
    (p.first q).Lays s spans holds :=
  (lays.both covers.lays).map Prod.fst (fun _ => (List.append_nil _).symm) fun _ => And.left

theorem Lays.second (covers : Covers n p) (lays : q.Lays s more also) :
    (p.second q).Lays s more also :=
  (covers.lays.both lays).map Prod.snd (fun _ => rfl) fun _ => And.right

theorem Lays.between (lays : p.Lays s spans holds) (opening closing : τ) :
    (p.between (one opening) (one closing)).Lays s spans holds :=
  (Lays.second (covers_one opening) lays).first (covers_one closing)

omit [DecidableEq τ] in
theorem YieldsAll.parts (lays : p.Lays s spans holds) {i k : Nat} {xs : List α}
    (all : p.YieldsAll s i xs k) : s.Parts i (xs.flatMap spans) k ∧ ∀ x ∈ xs, holds x := by
  induction all with
  | nil i => exact ⟨.none ⟨Nat.le_refl i, by omega⟩, nofun⟩
  | cons first others ih =>
      obtain ⟨parts, held⟩ := lays first
      exact ⟨parts.append ih.1, List.forall_mem_cons.mpr ⟨held, ih.2⟩⟩

theorem Lays.many (lays : p.Lays s spans holds) :
    p.many.Lays s (List.flatMap spans) fun xs => ∀ x ∈ xs, holds x :=
  fun _ _ _ yields => yields.of_many.parts lays

omit [DecidableEq τ] in
theorem YieldsBehind.parts {separator : Parser τ β} (lays : p.Lays s spans holds)
    (apart : Covers n separator) {i k : Nat} {xs : List α}
    (behind : YieldsBehind p separator s i xs k) :
    s.Parts i (xs.flatMap spans) k ∧ ∀ x ∈ xs, holds x := by
  induction behind with
  | done i => exact ⟨.none ⟨Nat.le_refl i, by omega⟩, nofun⟩
  | trailing last => exact ⟨.none (apart last).2, nofun⟩
  | more here next others ih =>
      obtain ⟨parts, held⟩ := lays next
      exact ⟨(parts.from_before (apart here).2).append ih.1,
        List.forall_mem_cons.mpr ⟨held, ih.2⟩⟩

theorem Lays.separated {separator : Parser τ β} (lays : p.Lays s spans holds)
    (apart : Covers n separator) :
    (p.separated separator).Lays s (List.flatMap spans) fun xs => ∀ x ∈ xs, holds x := by
  intro i xs k yields
  rcases yields.of_separated with ⟨rfl, rfl⟩ | ⟨x, others, j, rfl, first, behind⟩
  · exact ⟨.none ⟨Nat.le_refl k, by omega⟩, nofun⟩
  · obtain ⟨parts, held⟩ := lays first
    obtain ⟨later, held'⟩ := behind.parts lays apart
    exact ⟨parts.append later, List.forall_mem_cons.mpr ⟨held, held'⟩⟩

end Parser

end Parsing

end StaticImage
