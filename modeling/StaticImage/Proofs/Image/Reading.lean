import StaticImage.Proofs.Image.Spelling
import StaticImage.Proofs.Text.Identifiers

namespace StaticImage

/-- If the two plans come to their end and their texts go on to be the same, `fact` holds. -/
def PlansTell (weak : Bool) (first second : Plan) (fact : Prop) : Prop :=
  first.trace.Complete → second.trace.Complete →
    Tells (first.trace.spelling weak) (second.trace.spelling weak) fact

namespace PlansTell

variable {weak : Bool} {first second first' second' : Plan} {fact fact' : Prop}

theorem mono (told : PlansTell weak first second fact) (implies : fact → fact') :
    PlansTell weak first second fact' := by
  intro complete complete'
  exact (told complete complete').mono implies

theorem of_traces (equal : first.trace = first'.trace) (equal' : second.trace = second'.trace)
    (told : PlansTell weak first' second' fact) : PlansTell weak first second fact := by
  rw [PlansTell, equal, equal']
  exact told

theorem same (plan : Plan) : PlansTell weak plan plan True :=
  fun _ _ => Tells.same _

theorem steps {known known' : Trace}
    (told : Tells (known.spelling weak) (known'.spelling weak) fact) :
    PlansTell weak (.steps known) (.steps known') fact :=
  fun _ _ => told

theorem text {s t : String} (told : Tells s.toList t.toList fact) :
    PlansTell weak (.text s) (.text t) fact :=
  steps (told.before [])

theorem andThen (told : PlansTell weak first second fact)
    (then_told : fact → PlansTell weak first' second' fact') :
    PlansTell weak (first >> first') (second >> second') (fact ∧ fact') := by
  intro complete complete'
  rw [Plan.trace_andThen, Trace.complete_append] at complete complete'
  rw [Plan.trace_andThen, Plan.trace_andThen, Trace.spelling_append, Trace.spelling_append]
  exact (told complete.1 complete'.1).append fun holds =>
    then_told holds complete.2 complete'.2

theorem before (told : PlansTell weak first second fact) (plan : Plan) :
    PlansTell weak (first >> plan) (second >> plan) fact :=
  (told.andThen fun _ => same plan).mono And.left

theorem after (plan : Plan) (told : PlansTell weak first second fact) :
    PlansTell weak (plan >> first) (plan >> second) fact :=
  ((same plan).andThen fun _ => told).mono And.right

theorem clash {word word' rest rest' : List Char}
    (begins : first.trace.spelling weak = word ++ rest)
    (begins' : second.trace.spelling weak = word' ++ rest') (apart : ¬ word <+: word')
    (apart' : ¬ word' <+: word) : PlansTell weak first second fact := by
  intro _ _
  rw [begins, begins']
  exact Tells.clash_append apart apart'

theorem ite {condition condition' : Prop} [Decidable condition] [Decidable condition']
    (same : condition ↔ condition') (yes : condition → condition' → PlansTell weak first second fact)
    (no : ¬ condition → ¬ condition' → PlansTell weak first' second' fact) :
    PlansTell weak (if condition then first else first') (if condition' then second else second')
      fact := by
  by_cases holds : condition
  · have holds' := same.mp holds
    rw [if_pos holds, if_pos holds']
    exact yes holds holds'
  · have fails := fun holds' => holds (same.mpr holds')
    rw [if_neg holds, if_neg fails]
    exact no holds fails

theorem each_zipIdx {α β γ : Type} {left : α → β → Prop} {right : α → γ → Prop}
    (plan : β × Nat → Plan) (plan' : γ × Nat → Plan) (xs ys : List α) (held : List β)
    (held' : List γ) (start : Nat) (each : List.Forall₂ left xs held)
    (each' : List.Forall₂ right ys held') (length : xs.length = ys.length)
    (told : ∀ x ∈ xs, ∀ y, ∀ b c k, left x b → right y c →
      PlansTell weak (plan (b, k)) (plan' (c, k)) (x = y)) :
    PlansTell weak (Plan.each plan (held.zipIdx start)) (Plan.each plan' (held'.zipIdx start))
      (xs = ys) := by
  induction each generalizing ys held' start with
  | nil =>
      cases each' with
      | nil => exact (same _).mono fun _ => rfl
      | cons _ _ => cases length
  | cons head tail ih =>
      cases each' with
      | nil => cases length
      | cons head' tail' =>
          rw [List.zipIdx_cons, List.zipIdx_cons]
          have first := told _ List.mem_cons_self _ _ _ start head head'
          have rest := ih _ _ (start + 1) tail' (Nat.succ.inj length)
            fun x member => told x (List.mem_cons_of_mem _ member)
          exact (first.andThen fun _ => rest).mono fun equal => by rw [equal.1, equal.2]

theorem each {α β γ : Type} {left : α → β → Prop} {right : α → γ → Prop} (plan : β → Plan)
    (plan' : γ → Plan) (xs ys : List α) (held : List β) (held' : List γ)
    (each : List.Forall₂ left xs held) (each' : List.Forall₂ right ys held')
    (length : xs.length = ys.length)
    (told : ∀ x ∈ xs, ∀ y b c, left x b → right y c → PlansTell weak (plan b) (plan' c) (x = y)) :
    PlansTell weak (Plan.each plan held) (Plan.each plan' held') (xs = ys) := by
  have numbered {δ : Type} (f : δ → Plan) (items : List δ) (start : Nat) :
      Plan.each f items = Plan.each (fun item => f item.1) (items.zipIdx start) := by
    induction items generalizing start with
    | nil => rfl
    | cons item items ih => rw [List.zipIdx_cons, Plan.each, Plan.each, ih (start + 1)]
  rw [numbered plan held 0, numbered plan' held' 0]
  exact each_zipIdx _ _ xs ys held held' 0 each each' length
    fun x member y b c _ here there => told x member y b c here there

end PlansTell

end StaticImage
