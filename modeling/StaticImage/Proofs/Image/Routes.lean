import StaticImage.Proofs.Image.Definitions
import StaticImage.Proofs.Table.FiniteMap
import Mathlib.Data.List.Induction
import Mathlib.Data.List.Nodup

/-!
The routes of a dump. A dump goes from what it is called with into the classes among the portions
there, and from these into further ones, but not into a class that it is writing; it does so again
each time it comes across a class. So a symbol is defined as often as there are places with its
definition at the ends of routes.
-/

namespace StaticImage

/-- The classes that a dump went into, innermost first, each with the number of the portion that it
was. -/
abbrev Route := List (Nat × ClassId)

def Route.classes (route : Route) : List ClassId :=
  route.map Prod.snd

structure Place where
  route : Route
  index : Nat
  deriving DecidableEq, Repr

def Place.Within (place : Place) (route : Route) (i : Nat) : Prop :=
  place = ⟨route, i⟩ ∨ ∃ cls, (i, cls) :: route <:+ place.route

theorem Place.Within.unique {place : Place} {route : Route} {i j : Nat}
    (here : place.Within route i) (there : place.Within route j) : i = j := by
  have longer (k : Nat) (cls : ClassId) : ¬ (k, cls) :: route <:+ route := by
    intro within
    have short := within.length_le
    rw [List.length_cons] at short
    omega
  rcases here with rfl | ⟨cls, inner⟩
  · rcases there with same | ⟨other, deeper⟩
    · exact congrArg Place.index same
    · exact (longer j other deeper).elim
  · rcases there with rfl | ⟨other, deeper⟩
    · exact (longer i cls inner).elim
    · have same := List.suffix_of_suffix_length_le inner deeper (by simp)
      have equal := same.eq_of_length (by simp)
      simp only [List.cons.injEq, Prod.mk.injEq] at equal
      exact equal.1.1

def Portion.scan (inside : Route → List (Place × Piece)) (route : Route) (i : Nat) :
    Portion → List (Place × Piece)
  | definition piece => [(⟨route, i⟩, piece)]
  | classObject cls => if cls ∈ route.classes then [] else inside ((i, cls) :: route)

def scan (inside : Route → List (Place × Piece)) (route : Route) (portions : List Portion) :
    List (Place × Piece) :=
  portions.zipIdx.flatMap fun numbered => numbered.1.scan inside route numbered.2

section scan

variable {inside : Route → List (Place × Piece)} {route : Route} {portions : List Portion}

theorem mem_scan (place : Place) (piece : Piece) :
    (place, piece) ∈ scan inside route portions ↔
      (∃ i, portions[i]? = some (.definition piece) ∧ place = ⟨route, i⟩) ∨
        ∃ i cls, portions[i]? = some (.classObject cls) ∧ cls ∉ route.classes ∧
          (place, piece) ∈ inside ((i, cls) :: route) := by
  simp only [scan, List.mem_flatMap, Prod.exists, List.mem_zipIdx_iff_getElem?]
  constructor
  · rintro ⟨portion, i, here, found⟩
    cases portion with
    | definition other =>
        cases List.mem_singleton.mp found
        exact Or.inl ⟨i, here, rfl⟩
    | classObject cls =>
        rw [Portion.scan] at found
        split at found
        · cases found
        · exact Or.inr ⟨i, cls, here, ‹_›, found⟩
  · rintro (⟨i, here, rfl⟩ | ⟨i, cls, here, fresh, found⟩)
    · exact ⟨.definition piece, i, here, List.mem_singleton.mpr rfl⟩
    · exact ⟨.classObject cls, i, here, by rwa [Portion.scan, if_neg fresh]⟩

theorem map_scan (hoist : ClassId → Plan)
    (each : ∀ i cls, portions[i]? = some (.classObject cls) →
      ((Portion.classObject cls).scan inside route i).map (fun found => Step.write found.2) =
        (hoist cls).trace.definitions) :
    (scan inside route portions).map (fun found => Step.write found.2) =
      portions.flatMap (Portion.definitions hoist) := by
  calc
    _ = portions.zipIdx.flatMap fun numbered => numbered.1.definitions hoist := by
      rw [scan, List.map_flatMap]
      apply List.flatMap_congr
      intro numbered member
      have here := List.mem_zipIdx_iff_getElem?.mp member
      obtain ⟨portion, i⟩ := numbered
      cases portion with
      | definition piece => rfl
      | classObject cls => exact each i cls here
    _ = (portions.zipIdx.map Prod.fst).flatMap (Portion.definitions hoist) := by
      rw [List.flatMap_map]
    _ = portions.flatMap (Portion.definitions hoist) := by
      rw [List.zipIdx_map_fst]

theorem Portion.scan_within
    (deeper : ∀ route, ∀ found ∈ inside route, route <:+ found.1.route) (portion : Portion)
    (i : Nat) (place : Place) (member : place ∈ (portion.scan inside route i).map Prod.fst) :
    place.Within route i := by
  cases portion with
  | definition piece => exact Or.inl (List.mem_singleton.mp member)
  | classObject cls =>
      rw [scan] at member
      split at member
      · cases member
      · obtain ⟨found, inner, rfl⟩ := List.mem_map.mp member
        exact Or.inr ⟨cls, deeper ((i, cls) :: route) found inner⟩

theorem nodup_scan (nodup : ∀ route, ((inside route).map Prod.fst).Nodup)
    (deeper : ∀ route, ∀ found ∈ inside route, route <:+ found.1.route) :
    ((scan inside route portions).map Prod.fst).Nodup := by
  rw [scan, List.map_flatMap, List.nodup_flatMap]
  constructor
  · intro numbered _
    obtain ⟨portion, i⟩ := numbered
    cases portion with
    | definition piece => exact List.nodup_singleton _
    | classObject cls =>
        rw [Portion.scan]
        split
        · exact List.nodup_nil
        · exact nodup ((i, cls) :: route)
  · apply (Heap.pairwise_numbers portions).imp
    intro first second distinct place here there
    apply distinct
    exact (first.1.scan_within deeper first.2 place here).unique
      (second.1.scan_within deeper second.2 place there)

end scan

namespace Heap

section routes

variable (h : Heap) (root : Value) (context : Option String)

def portionsAt : Route → List Portion
  | [] => h.rootPortions root context
  | (_, cls) :: _ => h.classPortions cls

/-- The routes of a dump, which goes into a class among the portions unless it is writing it. -/
inductive Visits : Route → Prop where
  | root : Visits []
  | enter (route : Route) (i : Nat) (cls : ClassId) (outer : Visits route)
      (here : (h.portionsAt root context route)[i]? = some (.classObject cls))
      (fresh : cls ∉ route.classes) : Visits ((i, cls) :: route)

/-- The dump comes to the place, and writes the definition there. -/
def Defines (place : Place) (piece : Piece) : Prop :=
  h.Visits root context place.route ∧
    (h.portionsAt root context place.route)[place.index]? = some (.definition piece)

def walk : (nesting : Nat) → Route → List (Place × Piece)
  | 0, _ => []
  | nesting + 1, route => scan (walk nesting) route (h.portionsAt root context route)

end routes

variable {h : Heap} {root : Value} {context : Option String}

theorem Visits.of_suffix {inner outer : Route} (suffix : inner <:+ outer)
    (visits : h.Visits root context outer) : h.Visits root context inner := by
  induction visits with
  | root =>
      rw [List.suffix_nil.mp suffix]
      exact .root
  | enter route i cls outer here fresh ih =>
      rcases List.suffix_cons_iff.mp suffix with rfl | shorter
      · exact .enter route i cls outer here fresh
      · exact ih shorter

theorem walk_suffix (nesting : Nat) (route : Route) :
    ∀ found ∈ h.walk root context nesting route, route <:+ found.1.route := by
  intro found member
  induction nesting generalizing route with
  | zero => cases member
  | succ nesting ih =>
      rcases (mem_scan found.1 found.2).mp member with ⟨i, _, same⟩ | ⟨i, cls, _, _, inner⟩
      · simp [same]
      · exact (List.suffix_cons (i, cls) route).trans (ih _ inner)

theorem nodup_walk (nesting : Nat) (route : Route) :
    ((h.walk root context nesting route).map Prod.fst).Nodup := by
  induction nesting generalizing route with
  | zero => exact List.nodup_nil
  | succ nesting ih => exact nodup_scan ih (walk_suffix nesting)

theorem walk_sound (nesting : Nat) (route : Route) (place : Place) (piece : Piece)
    (visits : h.Visits root context route)
    (member : (place, piece) ∈ h.walk root context nesting route) :
    h.Defines root context place piece := by
  induction nesting generalizing route with
  | zero => cases member
  | succ nesting ih =>
      rcases (mem_scan place piece).mp member with ⟨i, here, rfl⟩ | ⟨i, cls, here, fresh, inner⟩
      · exact ⟨visits, here⟩
      · exact ih ((i, cls) :: route) (.enter route i cls visits here fresh) inner

def Finishes (h : Heap) (root : Value) (context : Option String) (nesting : Nat) (route : Route) :
    Prop :=
  ∀ cls, .classObject cls ∈ h.portionsAt root context route →
    (h.classPlan nesting route.classes cls).trace.Complete

theorem Finishes.inside {nesting : Nat} {route : Route} {i : Nat} {cls : ClassId}
    (finishes : h.Finishes root context nesting route)
    (here : (h.portionsAt root context route)[i]? = some (.classObject cls))
    (fresh : cls ∉ route.classes) :
    ∃ inner, nesting = inner + 1 ∧ h.Finishes root context inner ((i, cls) :: route) ∧
      (h.classPlan nesting route.classes cls).trace.definitions =
        (h.classPortions cls).flatMap (Portion.definitions
          (h.classPlan inner (cls :: route.classes))) := by
  have complete := finishes cls (List.mem_of_getElem? here)
  cases nesting with
  | zero => exact (complete .endless List.mem_cons_self).elim
  | succ inner =>
      obtain ⟨defined, ended⟩ := covers_classPlan inner route.classes cls fresh complete
      exact ⟨inner, rfl, ended, defined⟩

theorem walk_definitions (nesting : Nat) (route : Route)
    (finishes : h.Finishes root context nesting route) :
    (h.walk root context (nesting + 1) route).map (fun found => Step.write found.2) =
      (h.portionsAt root context route).flatMap
        (Portion.definitions (h.classPlan nesting route.classes)) := by
  induction nesting generalizing route with
  | zero =>
      apply map_scan
      intro i cls here
      exact (finishes cls (List.mem_of_getElem? here) .endless List.mem_cons_self).elim
  | succ nesting ih =>
      apply map_scan
      intro i cls here
      -- Neither the walk nor the plan goes into a class that is being written.
      by_cases again : cls ∈ route.classes
      · rw [Portion.scan, if_pos again, classPlan, if_pos again]
        rfl
      · obtain ⟨_, same, inside, defined⟩ := finishes.inside here again
        cases same
        rw [Portion.scan, if_neg again, defined]
        exact ih ((i, cls) :: route) inside

theorem walk_complete (nesting : Nat) (route : Route) (place : Place) (piece : Piece)
    (finishes : h.Finishes root context nesting route) (suffix : route <:+ place.route)
    (defines : h.Defines root context place piece) :
    (place, piece) ∈ h.walk root context (nesting + 1) route := by
  obtain ⟨beyond, split⟩ := suffix
  obtain ⟨visits, here⟩ := defines
  -- On the route to the place, what was entered first beyond `route` is one of the portions here.
  induction beyond using List.reverseRecOn generalizing nesting route with
  | nil =>
      obtain rfl : route = place.route := split
      exact (mem_scan place piece).mpr (Or.inl ⟨place.index, here, rfl⟩)
  | append_singleton beyond entered ih =>
      obtain ⟨i, cls⟩ := entered
      rw [List.append_assoc, List.singleton_append] at split
      have inner : h.Visits root context ((i, cls) :: route) := visits.of_suffix ⟨beyond, split⟩
      cases inner with
      | enter _ _ _ outer portion fresh =>
          obtain ⟨nesting, rfl, inside, _⟩ := finishes.inside portion fresh
          apply (mem_scan place piece).mpr
          exact Or.inr ⟨i, cls, portion, fresh, ih nesting ((i, cls) :: route) inside split⟩

theorem definitions_found (complete : (h.rootPlan root context).trace.Complete) :
    (h.rootPlan root context).trace.definitions =
        (h.walk root context (h.classNesting + 1) []).map (fun found => Step.write found.2) ∧
      ∀ place piece, (place, piece) ∈ h.walk root context (h.classNesting + 1) [] ↔
        h.Defines root context place piece := by
  obtain ⟨defined, finishes⟩ := covers_rootPlan root context complete
  constructor
  · rw [walk_definitions h.classNesting [] finishes]
    exact defined
  · intro place piece
    constructor
    · exact walk_sound _ [] place piece .root
    · exact walk_complete h.classNesting [] place piece finishes List.nil_suffix

/-- A dump that comes to its end defines no symbol twice exactly if no definition stands at two of the
places that it comes to. -/
theorem symbols_defined_once_iff (h : Heap) (root : Value) (options : DumpOptions)
    (room : Option Nat) (success : (h.dump root options room).1.error = none) :
    let steps := (h.rootPlan root options.context).taken options.weak room
    (h.dump root options room).1.bytes =
        (String.ofList (steps.spelling options.weak)).toUTF8.data.toList ∧
      ((∀ symbol, steps.count (.write (.localClass symbol)) ≤ 1 ∧
          steps.count (.write (.localClosure symbol)) ≤ 1) ↔
        ∀ piece place other, h.Defines root options.context place piece →
          h.Defines root options.context other piece → place = other) := by
  intro steps
  have all : steps = (h.rootPlan root options.context).trace :=
    Plan.taken_of_complete options.weak room _ success
  obtain ⟨complete, bytes⟩ := Plan.run_complete options.weak room _ success
  rw [all]
  refine ⟨bytes, ?_⟩
  obtain ⟨found, places⟩ := definitions_found complete
  have nodup : (h.walk root options.context (h.classNesting + 1) []).Nodup :=
    (nodup_walk (h.classNesting + 1) []).of_map
  calc
    _ ↔ (h.rootPlan root options.context).trace.definitions.Nodup :=
      (Trace.nodup_definitions_iff _).symm
    _ ↔ ∀ x ∈ h.walk root options.context (h.classNesting + 1) [],
        ∀ y ∈ h.walk root options.context (h.classNesting + 1) [],
          Step.write x.2 = Step.write y.2 → x = y := by
      rw [found, List.nodup_map_iff_inj_on nodup]
    _ ↔ _ := by
      constructor
      · intro injective piece place other here there
        have same := injective _ ((places place piece).mpr here) _ ((places other piece).mpr there)
        exact congrArg Prod.fst (same rfl)
      · intro unique x hx y hy same
        obtain ⟨place, piece⟩ := x
        obtain ⟨other, piece'⟩ := y
        cases same
        rw [unique piece place other ((places _ _).mp hx) ((places _ _).mp hy)]

/-- A class with two methods that have the same other class for a constant. -/
def sharing : Heap where
  protos := #[⟨"f", "", 1, 0, 0, [], [], some ⟨0⟩, [.plain .nil, .plain (.classObject ⟨1⟩)], []⟩,
    ⟨"g", "", 1, 0, 0, [], [], some ⟨0⟩, [.plain .nil, .plain (.classObject ⟨1⟩)], []⟩]
  closures := #[⟨⟨0⟩, []⟩, ⟨⟨1⟩, []⟩]
  classes := #[⟨"A", 0, none, some ⟨0⟩⟩, ⟨"B", 0, none, none⟩]
  modules := #[]
  instances := #[]
  maps := #[Table.afterAll [.insert (.plain (.string "f")) (.plain (.closure ⟨0⟩)),
    .insert (.plain (.string "g")) (.plain (.closure ⟨1⟩))]]
  lists := #[]
  builtins := defaultBuiltins

/-- Such a dump comes to its end. -/
theorem sharing_defined_once_iff :
    let root := Value.plain (.classObject ⟨0⟩)
    let steps := (sharing.rootPlan root none).taken false none
    (sharing.dump root ⟨false, none⟩ none).1.error = none ∧
      (sharing.dump root ⟨false, none⟩ none).1.bytes =
        (String.ofList (steps.spelling false)).toUTF8.data.toList ∧
      ((∀ symbol, steps.count (.write (.localClass symbol)) ≤ 1 ∧
          steps.count (.write (.localClosure symbol)) ≤ 1) ↔
        ∀ piece place other, sharing.Defines root none place piece →
          sharing.Defines root none other piece → place = other) := by
  intro root steps
  have success : (sharing.dump root ⟨false, none⟩ none).1.error = none := by decide +kernel
  exact ⟨success, symbols_defined_once_iff sharing root ⟨false, none⟩ none success⟩

/-- Classes go by different names and so do the functions of a class, yet one of them is written
twice. -/
theorem shared_class_is_defined_twice :
    let root := Value.plain (.classObject ⟨0⟩)
    let steps := (sharing.rootPlan root none).taken false none
    (sharing.classes.toList.map ClassObject.name).Nodup ∧
      (sharing.protos.toList.map fun p => (p.owner, p.name)).Nodup ∧
      (sharing.dump root ⟨false, none⟩ none).1.error = none ∧
      steps.count (.write (.localClass "B")) = 2 := by
  decide +kernel

end Heap

end StaticImage
