import StaticImage.Proofs.Heap.References
import StaticImage.Proofs.Image.PrintedMap
import StaticImage.Proofs.Table.Keeping
import StaticImage.Proofs.Table.Likeness

/-!
Dumps that agree. Of two dumps that are not cut short by the shape of their heaps, one comes to its
end exactly when the other does, and then they spell the same text. Values are written alike in two
heaps if, wherever they stand, what is written for them agrees.
-/

namespace StaticImage

/-- Objects that are missing or nested in themselves cut a dump short. -/
def DumpError.isCut : DumpError → Bool
  | .cyclicMap => true
  | .endless => true
  | .dangling => true
  | _ => false

namespace Trace

def Uncut (trace : Trace) : Prop :=
  ∀ why, Step.stop why ∈ trace → why.isCut = false

theorem uncut_append (first second : Trace) :
    Uncut (first ++ second) ↔ Uncut first ∧ Uncut second := by
  simp only [Uncut, List.mem_append, or_imp, forall_and]

/-- Unless one of them is cut short, both come to their end with the same text, or both do not. -/
def Agree (t u : Trace) : Prop :=
  t.Uncut → u.Uncut →
    (t.Complete ↔ u.Complete) ∧ ∀ weak, t.Complete → t.spelling weak = u.spelling weak

namespace Agree

theorem refl (t : Trace) : Agree t t :=
  fun _ _ => ⟨Iff.rfl, fun _ _ => rfl⟩

variable {t u t' u' : Trace}

theorem append (first : Agree t u) (second : Agree t' u') : Agree (t ++ t') (u ++ u') := by
  intro uncut uncut'
  obtain ⟨front, back⟩ := (uncut_append t t').mp uncut
  obtain ⟨front', back'⟩ := (uncut_append u u').mp uncut'
  obtain ⟨ends, text⟩ := first front front'
  obtain ⟨ends', text'⟩ := second back back'
  refine ⟨?_, fun weak complete => ?_⟩
  · rw [complete_append, complete_append, ends, ends']
  · obtain ⟨left, right⟩ := (complete_append t t').mp complete
    rw [spelling_append, spelling_append, text weak left, text' weak right]

theorem flatMap {α β : Type} {R : α → β → Prop} {xs : List α} {ys : List β} {f : α → Trace}
    {g : β → Trace} (related : List.Forall₂ R xs ys) (each : ∀ x y, R x y → Agree (f x) (g y)) :
    Agree (xs.flatMap f) (ys.flatMap g) := by
  induction related with
  | nil => exact refl []
  | cons here _ ih => exact (each _ _ here).append ih

theorem of_incomplete (left : ¬ t.Complete) (right : ¬ u.Complete) : Agree t u :=
  fun _ _ => ⟨iff_of_false left right, fun _ complete => (left complete).elim⟩

theorem of_complete (left : t.Complete) (right : u.Complete)
    (same : ∀ weak, t.spelling weak = u.spelling weak) : Agree t u :=
  fun _ _ => ⟨iff_of_true left right, fun weak _ => same weak⟩

theorem cut_left (why : DumpError) (cut : why.isCut = true) : Agree [.stop why] u := by
  intro uncut
  rw [uncut why List.mem_cons_self] at cut
  cases cut

theorem cut_right (why : DumpError) (cut : why.isCut = true) : Agree t [.stop why] := by
  intro _ uncut
  rw [uncut why List.mem_cons_self] at cut
  cases cut

theorem andThen {first second first' second' : Plan} (left : Agree first.trace first'.trace)
    (right : Agree second.trace second'.trace) :
    Agree (first >> second).trace (first' >> second').trace :=
  left.append right

theorem insideClass {inner inner' : Plan} (id id' : ClassId)
    (inside : Agree inner.trace inner'.trace) :
    Agree (Plan.insideClass id inner).trace (Plan.insideClass id' inner').trace := by
  have entered : Agree [.openClass id] [.openClass id'] :=
    of_complete (by simp) (by simp) fun _ => rfl
  have left : Agree [.closeClass id] [.closeClass id'] :=
    of_complete (by simp) (by simp) fun _ => rfl
  exact (entered.append inside).append left

theorem each {α β : Type} {R : α → β → Prop} {xs : List α} {ys : List β} {f : α → Plan}
    {g : β → Plan} (related : List.Forall₂ R xs ys)
    (each : ∀ x y, R x y → Agree (f x).trace (g y).trace) :
    Agree (Plan.each f xs).trace (Plan.each g ys).trace := by
  rw [Plan.trace_each, Plan.trace_each]
  exact flatMap related each

end Agree

end Trace

open Trace (Agree)

def Value.SameKey (k l : Value) : Prop :=
  k = l ∨ (¬ k.data.IsPrintedKey ∧ ¬ l.data.IsPrintedKey)

namespace Table

def Refused (t : Table) : Prop :=
  ∃ e ∈ t.compact.entries, ¬ e.key.data.IsPrintedKey

/-- The tables lie alike, or neither can be printed. -/
def Match (R : Value → Value → Prop) (t u : Table) : Prop :=
  t.Like R u ∨ (t.Refused ∧ u.Refused)

theorem Like.imp {R S : Value → Value → Prop} {t u : Table} (like : t.Like R u)
    (weaker : ∀ v w, R v w → S v w) : t.Like S u := by
  refine ⟨like.size, like.count, like.lastFree, fun slot => ?_⟩
  have here := like.slots slot
  generalize t.entryAt? slot = left, u.entryAt? slot = right at here
  cases here with
  | none => exact .none
  | some same => exact .some ⟨same.key, same.next, weaker _ _ same.value⟩

theorem Match.imp {R S : Value → Value → Prop} {t u : Table} (matches_ : t.Match R u)
    (weaker : ∀ v w, R v w → S v w) : t.Match S u :=
  matches_.imp_left fun like => like.imp weaker

theorem Match.of_bindings {R : Value → Value → Prop} {t u : Table}
    {left right : List (Value × Value)}
    (bindings : List.Forall₂ (fun a b => a.1.SameKey b.1 ∧ R a.2 b.2) left right)
    (made : ofList left = .ok t) (other : ofList right = .ok u) : t.Match R u := by
  by_cases printed : ∀ b ∈ left, b.1.data.IsPrintedKey
  · refine Or.inl ((like_sized 0).insertAll ?_ made other)
    clear made other
    induction bindings with
    | nil => exact .nil
    | @cons a b left right here _ ih =>
        obtain ⟨keys, values⟩ := here
        have same : a.1 = b.1 := keys.resolve_right fun other =>
          other.1 (printed a List.mem_cons_self)
        exact .cons ⟨same, values⟩ (ih fun c member => printed c (List.mem_cons_of_mem a member))
  · push Not at printed
    obtain ⟨a, member, refused⟩ := printed
    have both : ∃ b ∈ right, ¬ b.1.data.IsPrintedKey := by
      clear made other
      induction bindings with
      | nil => cases member
      | @cons c d left right here _ ih =>
          rcases List.mem_cons.mp member with rfl | later
          · refine ⟨d, List.mem_cons_self, ?_⟩
            rcases here.1 with same | ⟨_, there⟩
            · rwa [← same]
            · exact there
          · obtain ⟨b, inside, there⟩ := ih later
            exact ⟨b, List.mem_cons_of_mem d inside, there⟩
    obtain ⟨b, inside, refused'⟩ := both
    refine Or.inr ⟨?_, ?_⟩
    · obtain ⟨e, entry, key⟩ := insertAll_keeps made a member
      exact ⟨e, entry, by rwa [key]⟩
    · obtain ⟨e, entry, key⟩ := insertAll_keeps other b inside
      exact ⟨e, entry, by rwa [key]⟩

end Table

namespace Heap

def WrittenAlike (h g : Heap) (v w : Value) : Prop :=
  ∀ context key nesting nesting' opened opened',
    Agree ((h.unfold nesting opened v).plan context key).trace
      ((g.unfold nesting' opened' w).plan context key).trace

variable {h g : Heap} {v w : Value}

/-- Nesting that is used up cuts a dump short. -/
theorem writtenAlike_of_succ
    (alike : ∀ context key nesting nesting' opened opened',
      Agree ((h.unfold (nesting + 1) opened v).plan context key).trace
        ((g.unfold (nesting' + 1) opened' w).plan context key).trace) : h.WrittenAlike g v w := by
  intro context key nesting nesting' opened opened'
  cases nesting with
  | zero => exact Agree.cut_left .endless rfl
  | succ nesting =>
      cases nesting' with
      | zero => exact Agree.cut_right .endless rfl
      | succ nesting' => exact alike context key nesting nesting' opened opened'

theorem writtenAlike_of_plain (v : Value) (plain : v.object? = none) : h.WrittenAlike g v v := by
  refine writtenAlike_of_succ fun context key nesting nesting' opened opened' => ?_
  obtain ⟨data, isStatic⟩ := v
  cases data <;> first | exact Agree.refl _ | cases plain

theorem writtenAlike_list {id id' : ListId} {isStatic isStatic' : Bool} {items items' : List Value}
    (present : h.list? id = some items) (present' : g.list? id' = some items')
    (alike : List.Forall₂ (h.WrittenAlike g) items items') :
    h.WrittenAlike g ⟨.list id, isStatic⟩ ⟨.list id', isStatic'⟩ := by
  refine writtenAlike_of_succ fun context key nesting nesting' opened opened' => ?_
  simp only [unfold, present, present']
  rw [Constant.trace_list, Constant.trace_list, Constant.trace_itemsPlan, Constant.trace_itemsPlan,
    List.flatMap_map, List.flatMap_map, List.length_map, List.length_map, alike.length_eq]
  refine .append (.append (t := [_]) (u := [_]) (.refl _) (.flatMap alike ?_)) (.refl _)
  intro item item' here
  exact .append (.append (t := [_]) (u := [_]) (.refl _)
    (here context (some "") nesting nesting' opened opened')) (.refl _)

theorem constantKey_incomplete {key : Datum} (refused : ¬ key.IsPrintedKey) (link : Int) :
    ¬ (key.constantKey.plan link).trace.Complete := by
  intro complete
  cases key with
  | string text => exact refused (Or.inl ⟨text, rfl⟩)
  | int n => exact refused (Or.inr ⟨n, rfl⟩)
  | _ => exact complete _ List.mem_cons_self

/-- A map with a key that cannot be printed is not written to its end. -/
theorem incomplete_of_refused {id : MapId} {isStatic : Bool} {t : Table}
    (present : h.table? id = some t) (refused : t.Refused) (context key : Option String)
    (nesting : Nat) (opened : List MapId) :
    ¬ ((h.unfold nesting opened ⟨.map id, isStatic⟩).plan context key).trace.Complete := by
  intro complete
  cases nesting with
  | zero => exact complete _ List.mem_cons_self
  | succ nesting =>
      simp only [unfold] at complete
      split at complete
      · exact complete _ List.mem_cons_self
      · rw [present] at complete
        obtain ⟨e, member, unprinted⟩ := refused
        have all := (Constant.writable_map context key id _).mp complete
        exact constantKey_incomplete unprinted e.link (all _ (List.mem_map_of_mem member)).1

theorem writtenAlike_map {id id' : MapId} {isStatic isStatic' : Bool} {t u : Table}
    (present : h.table? id = some t) (present' : g.table? id' = some u)
    (matches_ : t.Match (h.WrittenAlike g) u) :
    h.WrittenAlike g ⟨.map id, isStatic⟩ ⟨.map id', isStatic'⟩ := by
  rcases matches_ with like | ⟨refused, refused'⟩
  · refine writtenAlike_of_succ fun context key nesting nesting' opened opened' => ?_
    simp only [unfold, present, present']
    by_cases again : id ∈ opened
    · rw [if_pos again]
      exact Agree.cut_left .cyclicMap rfl
    · by_cases again' : id' ∈ opened'
      · rw [if_pos again']
        exact Agree.cut_right .cyclicMap rfl
      · rw [if_neg again, if_neg again']
        have entries := like.compact.entries
        rw [Constant.trace_map, Constant.trace_map, Constant.trace_bindingsPlan,
          Constant.trace_bindingsPlan, List.flatMap_map, List.flatMap_map, List.length_map,
          List.length_map, entries.length_eq]
        refine .append (.append ?_ (.flatMap entries ?_)) ?_
        · exact .of_complete (by simp [Step.text]) (by simp [Step.text]) fun _ => rfl
        · intro e f same
          rw [same.key, Entry.link, Entry.link, Entry.isLast, Entry.isLast, same.next]
          exact .append (.append (.refl _) (same.value _ _ _ _ _ _)) (.refl _)
        · exact .of_complete (by simp [Step.text]) (by simp [Step.text]) fun _ => rfl
  · intro context key nesting nesting' opened opened'
    exact .of_incomplete (incomplete_of_refused present refused context key nesting opened)
      (incomplete_of_refused present' refused' context key nesting' opened')

theorem writtenAlike_wrapped {id id' : InstanceId} {isStatic isStatic' : Bool} (kind : Wrapper)
    {i i' : InstanceObject} (present : h.instance? id = some i)
    (present' : g.instance? id' = some i') (content : h.instanceContent i = .inr (kind, v))
    (content' : g.instanceContent i' = .inr (kind, w)) (alike : h.WrittenAlike g v w) :
    h.WrittenAlike g ⟨.instanceObject id, isStatic⟩ ⟨.instanceObject id', isStatic'⟩ := by
  refine writtenAlike_of_succ fun context key nesting nesting' opened opened' => ?_
  simp only [unfold, present, present', Option.map_some, content, content']
  rw [Constant.trace_wrapped, Constant.trace_wrapped]
  exact .append (.append (t := [_]) (u := [_]) (.refl _) (alike context key _ _ _ _)) (.refl _)

theorem writtenAlike_instance {id id' : InstanceId} {isStatic isStatic' : Bool}
    {c : Constant MapId} {i i' : InstanceObject} (present : h.instance? id = some i)
    (present' : g.instance? id' = some i') (content : h.instanceContent i = .inl c)
    (content' : g.instanceContent i' = .inl c) :
    h.WrittenAlike g ⟨.instanceObject id, isStatic⟩ ⟨.instanceObject id', isStatic'⟩ := by
  refine writtenAlike_of_succ fun context key nesting nesting' opened opened' => ?_
  simp only [unfold, present, present', Option.map_some, content, content']
  exact .refl _

end Heap

end StaticImage
