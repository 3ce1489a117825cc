import StaticImage.Proofs.Image.Correspondence
import StaticImage.Proofs.Snapshot.Lowering

/-!
Twins: two loaded heaps of which the second has all items of the first, in whatever order the items
and their fields are. Items of the same name are described by the same fields, and their objects are
paired.
-/

namespace StaticImage.Snapshot

theorem lookup_of_perm {α : Type} {xs ys : List (String × α)} (perm : xs.Perm ys)
    (distinct : (xs.map Prod.fst).Nodup) (name : String) : xs.lookup name = ys.lookup name := by
  have also : (ys.map Prod.fst).Nodup := (perm.map Prod.fst).nodup_iff.mp distinct
  cases here : xs.lookup name with
  | some d => exact (lookup_of_mem also (perm.mem_iff.mp (mem_of_lookup here))).symm
  | none =>
      cases there : ys.lookup name with
      | none => rfl
      | some d =>
          have found := lookup_of_mem distinct (perm.mem_iff.mpr (mem_of_lookup there))
          rw [here] at found
          cases found

def Form.content? : Form → Option String
  | .string content => some content
  | _ => none

namespace Item

theorem itemName_eq (i : Item) :
    (i.title, i.shown) =
      match i.given.lookup "name", i.name.map Located.value with
      | none, none => ("", "")
      | none, some name => (name, name)
      | some f, name =>
        match f.content? with
        | none => ("", "")
        | some shown => (name.getD shown, shown) := by
  rw [lookup_given, title, shown, itemName]
  cases i.field? "name" with
  | none => cases i.name <;> rfl
  | some f =>
      obtain ⟨name, ⟨e, span⟩⟩ := f
      cases e <;> cases i.name <;> rfl

namespace SameAs

variable {i j : Item} (same : i.SameAs j) (distinct : (i.given.map Prod.fst).Nodup)

include same

theorem declaredAs {what : Option Declared} (distinct : (i.given.map Prod.fst).Nodup) :
    i.DeclaredAs what ↔ j.DeclaredAs what := by
  have proto := lookup_of_perm same.given distinct "proto"
  have kind := same.kind
  rcases what with _ | ⟨_ | _ | _ | _⟩ <;> simp [DeclaredAs, proto, kind]

theorem lookup (distinct : (i.given.map Prod.fst).Nodup) :
    (fun field => i.given.lookup field) = fun field => j.given.lookup field :=
  funext (lookup_of_perm same.given distinct)

theorem names (distinct : (i.given.map Prod.fst).Nodup) :
    i.title = j.title ∧ i.shown = j.shown := by
  have left := i.itemName_eq
  have right := j.itemName_eq
  rw [lookup_of_perm same.given distinct, same.name, ← right] at left
  exact ⟨congrArg Prod.fst left, congrArg Prod.snd left⟩

end SameAs

theorem DeclaredAs.not_builtins {i : Item} {d : Declared} (kind : i.DeclaredAs (some d)) :
    i.kind.value ≠ "builtins" := by
  intro builtins
  rcases d with _ | _ | _ | _ <;> simp [DeclaredAs, builtins] at kind

end Item

/-- The second heap has all items of the first. -/
structure Twins (s : Scope) (h : Heap) (s' : Scope) (h' : Heap) : Prop where
  host : s.host = s'.host
  apart : s.names.Pairwise fun a b => a.2.objects.Disjoint b.2.objects
  apart' : s'.names.Pairwise fun a b => a.2.objects.Disjoint b.2.objects
  item : ∀ name d, s.names.lookup name = some d → ∃ (d' : Declared) (i : Item),
    s'.names.lookup name = some d' ∧
    i.DeclaredAs (some d) ∧ i.DeclaredAs (some d') ∧
    Describes s h i.shown (fun field => i.given.lookup field) d ∧
    Describes s' h' i.shown (fun field => i.given.lookup field) d'
  builtins : h.builtins = h'.builtins

/-- What two lists have in common with a third they have with each other. -/
theorem forall₂_meet {α β γ : Type} {R : α → β → Prop} {S : α → γ → Prop} {T : β → γ → Prop}
    (meet : ∀ x y z, R x y → S x z → T y z) {xs : List α} {ys : List β} {zs : List γ}
    (first : List.Forall₂ R xs ys) (second : List.Forall₂ S xs zs) : List.Forall₂ T ys zs := by
  induction first generalizing zs with
  | nil =>
      cases second
      exact .nil
  | cons here _ ih =>
      cases second with
      | cons there rest => exact .cons (meet _ _ _ here there) (ih rest)

theorem forall₂_unique {α β : Type} {R : α → β → Prop} (unique : ∀ x y z, R x y → R x z → y = z)
    {xs : List α} {ys zs : List β} (first : List.Forall₂ R xs ys) (second : List.Forall₂ R xs zs) :
    ys = zs :=
  List.forall₂_eq_eq_eq ▸ forall₂_meet unique first second

theorem Form.Lists.unique {f : Form} {names names' : List String} (first : f.Lists names)
    (second : f.Lists names') : names = names' := by
  obtain ⟨items, rfl, all⟩ := first
  obtain ⟨_, same, all'⟩ := second
  cases same
  exact forall₂_unique (fun f y z left right => Option.some.inj (left.symm.trans right)) all all'

theorem BuiltinsFit.unique {given : Given} {before after after' : List String}
    (first : BuiltinsFit given before after) (second : BuiltinsFit given before after') :
    after = after' := by
  cases names : given "names" with
  | none => rw [first.missing names, second.missing names]
  | some f => exact (first.listed f names).unique (second.listed f names)

/-- If there is at most one table of built-ins, and it is the same, it makes the same of what was
there before. -/
theorem builtinsAfter_unique {xs ys : List Item} {before after after' : List String}
    (first : BuiltinsAfter xs before after) (second : BuiltinsAfter ys before after')
    (single : xs.length ≤ 1) (single' : ys.length ≤ 1)
    (distinct : ∀ i ∈ xs, (i.given.map Prod.fst).Nodup) (forth : ∀ i ∈ xs, ∃ j ∈ ys, i.SameAs j)
    (back : ∀ j ∈ ys, ∃ i ∈ xs, i.SameAs j) : after = after' := by
  rcases xs with _ | ⟨i, _ | ⟨_, _⟩⟩
  · rcases ys with _ | ⟨j, ys⟩
    · exact first.trans second.symm
    · obtain ⟨_, absurd, _⟩ := back j List.mem_cons_self
      cases absurd
  · rcases ys with _ | ⟨j, _ | ⟨_, _⟩⟩
    · obtain ⟨_, absurd, _⟩ := forth i List.mem_cons_self
      cases absurd
    · obtain ⟨_, member, same⟩ := forth i List.mem_cons_self
      cases List.mem_singleton.mp member
      obtain ⟨_, fits, rfl⟩ := first
      obtain ⟨_, fits', rfl⟩ := second
      rw [← same.lookup (distinct i List.mem_cons_self)] at fits'
      exact fits.unique fits'
    · simp at single'
  · simp at single

section

variable {s s' : Scope} {items items' : List Item} {loaded loaded' : Loaded}
  (here : Represents s items loaded) (there : Represents s' items' loaded')

include here

theorem Represents.title_unique {i j : Item} {d e : Declared} (first : i ∈ items)
    (second : j ∈ items) (kind : i.DeclaredAs (some d)) (kind' : j.DeclaredAs (some e))
    (title : i.title = j.title) : i = j := by
  have distinct := here.distinct
  rw [here.titles] at distinct
  refine List.inj_on_of_nodup_map distinct ?_ ?_ title
  · exact List.mem_filter.mpr ⟨first, decide_eq_true kind.not_builtins⟩
  · exact List.mem_filter.mpr ⟨second, decide_eq_true kind'.not_builtins⟩

include there

/-- Where all items of one text occur in another, the heaps are twins. -/
theorem Represents.twins (host : s.host = s'.host)
    (within : ∀ i ∈ items, ∃ j ∈ items', i.SameAs j)
    (single : (items.filter fun i => i.kind.value = "builtins").length ≤ 1)
    (single' : (items'.filter fun i => i.kind.value = "builtins").length ≤ 1)
    (tables : ∀ j ∈ items', j.kind.value = "builtins" → ∃ i ∈ items, i.SameAs j) :
    Twins s loaded.heap s' loaded'.heap := by
  refine ⟨host, here.apart, there.apart, fun name d declared => ?_, ?_⟩
  · obtain ⟨i, member, rfl, kind, describes⟩ := here.item name d declared
    obtain ⟨j, inside, same⟩ := within i member
    have distinct := here.fields i member
    have kind' := (same.declaredAs distinct).mp kind
    obtain ⟨title, shown⟩ := same.names distinct
    rcases there.declared j inside with none | ⟨d', declared'⟩
    · exact (kind'.not_builtins none).elim
    · obtain ⟨k, also, same_title, kind'', describes'⟩ := there.item j.title d' declared'
      cases there.title_unique also inside kind'' kind' same_title
      refine ⟨d', i, title ▸ declared', kind, (same.declaredAs distinct).mpr kind'', describes, ?_⟩
      rw [shown, same.lookup distinct]
      exact describes'
  · refine builtinsAfter_unique here.builtins there.builtins single single' ?_ ?_ ?_
    · intro i member
      exact here.fields i (List.mem_filter.mp member).1
    · intro i member
      obtain ⟨member, kind⟩ := List.mem_filter.mp member
      obtain ⟨j, inside, same⟩ := within i member
      exact ⟨j, List.mem_filter.mpr ⟨inside, by rwa [← same.kind]⟩, same⟩
    · intro j member
      obtain ⟨member, kind⟩ := List.mem_filter.mp member
      obtain ⟨i, inside, same⟩ := tables j member (of_decide_eq_true kind)
      exact ⟨i, List.mem_filter.mpr ⟨inside, by rwa [same.kind]⟩, same⟩

end

end StaticImage.Snapshot
