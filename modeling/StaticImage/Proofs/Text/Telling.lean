import Mathlib.Data.List.Basic

/-!
Texts that can be read back in one way only. What two texts tell is what follows from their being
the same as far as they go, whatever comes behind them; so the texts of parts put in a row tell
what the parts tell, one after the other.
-/

namespace StaticImage

/-- Where the two texts go on to be the same, `fact` holds and what follows them is the same. -/
def Tells (left right : List Char) (fact : Prop) : Prop :=
  ∀ rest other, left ++ rest = right ++ other → fact ∧ rest = other

namespace Tells

variable {left right left' right' : List Char} {fact fact' : Prop}

theorem of_eq (told : Tells left right fact) (equal : left = right) : fact :=
  (told [] [] (by rw [equal])).1

theorem mono (told : Tells left right fact) (implies : fact → fact') :
    Tells left right fact' := by
  intro rest other agree
  obtain ⟨holds, tail⟩ := told rest other agree
  exact ⟨implies holds, tail⟩

theorem same (text : List Char) : Tells text text True := by
  intro rest other agree
  exact ⟨trivial, List.append_cancel_left agree⟩

theorem append (first : Tells left right fact) (second : fact → Tells left' right' fact') :
    Tells (left ++ left') (right ++ right') (fact ∧ fact') := by
  intro rest other agree
  rw [List.append_assoc, List.append_assoc] at agree
  obtain ⟨holds, tail⟩ := first _ _ agree
  obtain ⟨then_holds, after⟩ := second holds rest other tail
  exact ⟨⟨holds, then_holds⟩, after⟩

theorem after (text : List Char) (told : Tells left right fact) :
    Tells (text ++ left) (text ++ right) fact :=
  ((same text).append fun _ => told).mono And.right

theorem before (text : List Char) (told : Tells left right fact) :
    Tells (left ++ text) (right ++ text) fact :=
  (told.append fun _ => same text).mono And.left

theorem clash (apart : ¬ left <+: right) (apart' : ¬ right <+: left) :
    Tells left right False := by
  intro rest other agree
  have shared : right <+: left ++ rest := agree ▸ List.prefix_append right other
  rcases List.prefix_or_prefix_of_prefix (List.prefix_append left rest) shared with here | there
  · exact (apart here).elim
  · exact (apart' there).elim

theorem clash_append (apart : ¬ left <+: right) (apart' : ¬ right <+: left) :
    Tells (left ++ left') (right ++ right') fact :=
  ((clash apart apart').append fun never => (never.elim : Tells left' right' fact)).mono And.right

theorem block (length : left.length = right.length) : Tells left right (left = right) := by
  intro rest other agree
  exact List.append_inj agree length

theorem field {closing : List Char} {stop : Char} (kind : Char → Bool)
    (ends : closing.head? = some stop) (outside : kind stop = false)
    (inside : ∀ c ∈ left, kind c = true) (inside' : ∀ c ∈ right, kind c = true) :
    Tells (left ++ closing) (right ++ closing) (left = right) := by
  obtain ⟨tail, rfl⟩ : ∃ tail, closing = stop :: tail := List.head?_eq_some_iff.mp ends
  intro rest other agree
  induction left generalizing right with
  | nil =>
      cases right with
      | nil => exact ⟨rfl, List.append_cancel_left agree⟩
      | cons c right =>
          have first : stop = c := (List.cons.inj agree).1
          rw [first, inside' c List.mem_cons_self] at outside
          cases outside
  | cons c left ih =>
      cases right with
      | nil =>
          have first : c = stop := (List.cons.inj agree).1
          rw [← first, inside c List.mem_cons_self] at outside
          cases outside
      | cons d right =>
          obtain ⟨first, agree⟩ := List.cons.inj agree
          obtain ⟨equal, tail⟩ := ih (fun x member => inside x (List.mem_cons_of_mem c member))
            (fun x member => inside' x (List.mem_cons_of_mem d member)) agree
          exact ⟨by rw [first, equal], tail⟩

theorem sequence {α : Type} (text : α → List Char) (xs ys : List α)
    (each : ∀ x ∈ xs, ∀ y ∈ ys, Tells (text x) (text y) (x = y)) (length : xs.length = ys.length) :
    Tells (xs.flatMap text) (ys.flatMap text) (xs = ys) := by
  induction xs generalizing ys with
  | nil =>
      obtain rfl : ys = [] := List.length_eq_zero_iff.mp length.symm
      exact (same []).mono fun _ => rfl
  | cons x xs ih =>
      cases ys with
      | nil => cases length
      | cons y ys =>
          have head := each x List.mem_cons_self y List.mem_cons_self
          have tail := ih ys (fun x' here y' there => each x' (List.mem_cons_of_mem x here) y'
            (List.mem_cons_of_mem y there)) (Nat.succ.inj length)
          rw [List.flatMap_cons, List.flatMap_cons]
          exact (head.append fun _ => tail).mono fun equal => by rw [equal.1, equal.2]

end Tells

end StaticImage
