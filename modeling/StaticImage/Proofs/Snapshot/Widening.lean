import StaticImage.Command.Run
import StaticImage.Proofs.Snapshot.Graph
import StaticImage.Proofs.Snapshot.Reals

namespace StaticImage

namespace Host

theorem fits_iff {host : Host} {n : Int} :
    host.fits n = true ↔ -(host.limit : Int) ≤ n ∧ n < host.limit := by
  simp only [fits, Bool.and_eq_true, decide_eq_true_eq]

theorem fits_wide {n : Int} (fits : narrow.fits n = true) : wide.fits n = true := by
  obtain ⟨low, high⟩ := fits_iff.mp fits
  have further : (narrow.limit : Int) ≤ wide.limit := by decide
  exact fits_iff.mpr ⟨by omega, by omega⟩

end Host

namespace Snapshot

open Load

namespace Load

variable {α β : Type}

/-- Whatever a computation comes to, another one comes to as well. -/
def Within (m m' : Load α) : Prop :=
  ∀ (h : Heap) (a : α) (h' : Heap), m h = .ok (a, h') → m' h = .ok (a, h')

theorem Within.refl (m : Load α) : Within m m :=
  fun _ _ _ run => run

theorem within_of_eq {m m' : Load α} (same : m = m') : Within m m' :=
  same ▸ .refl m

theorem Within.bind {m m' : Load α} {next next' : α → Load β} (first : Within m m')
    (rest : ∀ a, Within (next a) (next' a)) : Within (m >>= next) (m' >>= next') := by
  intro h b h' run
  obtain ⟨a, mid, ran, run⟩ := bind_ok run
  change (m' h >>= fun p => next' p.1 p.2) = .ok (b, h')
  rw [first h a mid ran]
  exact rest a mid b h' run

theorem Within.forM {xs : List α} {effect effect' : α → Load Unit}
    (each : ∀ x ∈ xs, Within (effect x) (effect' x)) :
    Within (xs.forM effect) (xs.forM effect') := by
  induction xs with
  | nil => exact .refl _
  | cons x xs ih =>
      refine (each x List.mem_cons_self).bind fun _ => ih fun y member => ?_
      exact each y (List.mem_cons_of_mem x member)

end Load

theorem mapKey_within (key : Expr) (span : Span) {inner inner' : Load Value}
    (within : Within inner inner') : Within (mapKey key span inner) (mapKey key span inner') := by
  cases key with
  | ref name => exact .refl _
  | nil => exact .refl _
  | _ => exact within

/-- A scope of the same names whose host has all the integers of the other one. -/
structure Scope.Widens (s s' : Scope) : Prop where
  names : s.names = s'.names
  fits : ∀ n, s.host.fits n = true → s'.host.fits n = true

namespace Scope.Widens

variable {s s' : Scope} (widens : s.Widens s')

include widens

theorem hostInt (e : Located Expr) : Within (hostIntOf s e) (hostIntOf s' e) := by
  refine (Within.refl (intOf e)).bind fun n => ?_
  intro h m h' run
  split at run
  · rename_i fits
    rwa [if_pos (widens.fits n fits)]
  · exact (fail_ok run).elim

theorem protoRef : protoRef s = protoRef s' := by
  unfold Snapshot.protoRef resolve
  rw [widens.names]

theorem classRef : classRef s = classRef s' := by
  unfold Snapshot.classRef resolve
  rw [widens.names]

theorem reference : reference s = reference s' := by
  unfold Snapshot.reference resolve
  rw [widens.names]

theorem constructs (function : Located String) (argument : Located Expr) {inner inner' : Load Value}
    (within : Within inner inner') :
    Within (construct s function argument inner) (construct s' function argument inner') := by
  unfold construct
  split
  · exact (widens.hostInt argument).bind fun n => .refl _
  · exact within.bind fun v => .refl _
  · exact .refl _
  · exact .refl _
  · exact .refl _
  · exact .refl _
  · exact within.bind fun v => .refl _
  · exact within.bind fun v => .refl _
  · exact within_of_eq (by rw [widens.classRef])
  · exact .refl _

end Scope.Widens

mutual

theorem Scope.Widens.value {s s' : Scope} (widens : s.Widens s') (e : Expr) (span : Span)
    (free : e.form.reals = []) : Within (value s e span) (value s' e span) :=
  match e with
  | .nil | .bool _ | .string _ => by
      unfold Snapshot.value
      exact .refl _
  | .int n => by
      unfold Snapshot.value
      exact (widens.hostInt _).bind fun n => .refl _
  | .real literal => by cases free
  | .ref name => by
      unfold Snapshot.value
      exact within_of_eq (by rw [widens.reference])
  | .call function [⟨e, at_⟩] => by
      unfold Snapshot.value
      refine widens.constructs function ⟨e, at_⟩ (widens.value e at_ ?_)
      simpa only [Expr.form, formsOf, Form.reals, formsReals, List.append_nil] using free
  | .call function [] => by
      unfold Snapshot.value
      exact .refl _
  | .call function (_ :: _ :: _) => by
      unfold Snapshot.value
      exact .refl _
  | .list items => by
      unfold Snapshot.value
      exact (widens.values items free).bind fun vs => .refl _
  | .map entries => by
      unfold Snapshot.value
      exact (widens.bindings .empty entries free).bind fun t => .refl _

theorem Scope.Widens.values {s s' : Scope} (widens : s.Widens s') (items : List (Located Expr))
    (free : formsReals (formsOf items) = []) : Within (values s items) (values s' items) :=
  match items with
  | [] => by
      unfold Snapshot.values
      exact .refl _
  | ⟨e, span⟩ :: items => by
      obtain ⟨here, there⟩ := List.append_eq_nil_iff.mp free
      unfold Snapshot.values
      exact (widens.value e span here).bind fun v =>
        (widens.values items there).bind fun vs => .refl _

theorem Scope.Widens.bindings {s s' : Scope} (widens : s.Widens s') (t : Table)
    (entries : List (Located Expr × Located Expr))
    (free : entriesReals (entryFormsOf entries) = []) :
    Within (bindings s t entries) (bindings s' t entries) :=
  match entries with
  | [] => by
      unfold Snapshot.bindings
      exact .refl _
  | (⟨key, keySpan⟩, ⟨e, span⟩) :: entries => by
      obtain ⟨both, there⟩ := List.append_eq_nil_iff.mp free
      obtain ⟨keys, here⟩ := List.append_eq_nil_iff.mp both
      unfold Snapshot.bindings
      refine (mapKey_within key keySpan (widens.value key keySpan keys)).bind fun k => ?_
      refine (widens.value e span here).bind fun v => ?_
      exact (Within.refl _).bind fun u => widens.bindings u entries there

end

section

variable {s s' : Scope} (widens : s.Widens s')

include widens

theorem Scope.Widens.valuesOf (e : Located Expr) (free : e.value.form.reals = []) :
    Within (valuesOf s e) (valuesOf s' e) := by
  intro h vs h' run
  obtain ⟨items, mid, listed, run⟩ := bind_ok run
  have list := (listOf_ok listed).2
  rw [list] at free
  change (listOf e h >>= fun p => Snapshot.values s' p.1 p.2) = .ok (vs, h')
  rw [listed]
  exact widens.values items free mid vs h' run

theorem Scope.Widens.optionalMap (e : Located Expr) (free : e.value.form.reals = []) :
    Within (optionalMap s e) (optionalMap s' e) := by
  unfold Snapshot.optionalMap
  split
  · exact .refl _
  · exact (widens.value e.value e.span free).bind fun v => .refl _
  · exact .refl _

theorem Scope.Widens.protoField (id : ProtoId) (f : Field) (free : f.value.value.form.reals = []) :
    Option.Rel Within (protoField? s id f) (protoField? s' id f) := by
  unfold protoField?
  dsimp only
  rw [widens.protoRef, widens.classRef]
  split
  case h_9 => exact .some ((widens.valuesOf f.value free).bind fun x => .refl _)
  case h_11 => exact .none
  all_goals exact .some (.refl _)

theorem Scope.Widens.closureField (id : ClosureId) (own : Option ProtoId) (f : Field)
    (free : f.value.value.form.reals = []) :
    Option.Rel Within (closureField? s id own f) (closureField? s' id own f) := by
  unfold closureField?
  dsimp only
  rw [widens.protoRef]
  split
  · exact .some (.refl _)
  · split
    · exact .some ((widens.valuesOf f.value free).bind fun x => .refl _)
    · cases own with
      | none => exact .none
      | some own => exact widens.protoField own f free

theorem Scope.Widens.classField (id : ClassId) (f : Field) (free : f.value.value.form.reals = []) :
    Option.Rel Within (classField? s id f) (classField? s' id f) := by
  unfold classField?
  dsimp only
  rw [widens.classRef]
  split
  case h_4 => exact .some ((widens.optionalMap f.value free).bind fun x => .refl _)
  case h_5 => exact .none
  all_goals exact .some (.refl _)

theorem Scope.Widens.moduleField (id : ModuleId) (f : Field)
    (free : f.value.value.form.reals = []) :
    Option.Rel Within (moduleField? s id f) (moduleField? s' id f) := by
  unfold moduleField?
  dsimp only
  split
  · exact .some (.refl _)
  · exact .some ((widens.optionalMap f.value free).bind fun x => .refl _)
  · exact .none

theorem Scope.Widens.field (what : Option Declared) (f : Field)
    (free : f.value.value.form.reals = []) :
    Option.Rel Within (field? s f what) (field? s' f what) :=
  match what with
  | some (.proto id) => widens.protoField id f free
  | some (.closure id own) => widens.closureField id own f free
  | some (.classItem id) => widens.classField id f free
  | some (.moduleItem id) => widens.moduleField id f free
  | none => by
      unfold field?
      cases builtinsField? f with
      | none => exact .none
      | some effect => exact .some (.refl effect)

theorem Scope.Widens.define (i : Item) (what : Option Declared)
    (free : ∀ f ∈ i.fields, f.value.value.form.reals = []) :
    Within (define s i what) (define s' i what) := by
  unfold Snapshot.define
  split
  · exact .refl _
  · refine Within.forM fun f member => ?_
    have fields := widens.field what f (free f member)
    generalize field? s f what = effect? at fields ⊢
    generalize field? s' f what = effect'? at fields ⊢
    cases fields with
    | none => exact .refl _
    | some within => exact within

theorem Scope.Widens.defineAll (items : List (Item × Option Declared)) (h h' : Heap)
    (free : ∀ i ∈ items, ∀ f ∈ i.1.fields, f.value.value.form.reals = [])
    (run : defineAll s h items = ([], h')) : defineAll s' h items = ([], h') := by
  induction items generalizing h with
  | nil => exact run
  | cons item items ih =>
      obtain ⟨i, what⟩ := item
      rw [Snapshot.defineAll] at run ⊢
      cases defined : Snapshot.define s i what h with
      | error problem =>
          rw [defined] at run
          cases run
      | ok outcome =>
          obtain ⟨⟨⟩, mid⟩ := outcome
          have here := free (i, what) List.mem_cons_self
          rw [defined] at run
          rw [widens.define i what here h () mid defined]
          exact ih mid (fun j member => free j (List.mem_cons_of_mem _ member)) run

end

theorem lower_widens {host host' : Host} (fits : ∀ n, host.fits n = true → host'.fits n = true)
    {items : List Item} {loaded : Loaded}
    (free : ∀ i ∈ items, ∀ f ∈ i.fields, f.value.value.form.reals = [])
    (run : lower host items = .ok loaded) : lower host' items = .ok loaded := by
  unfold lower at run ⊢
  rcases all : declareAll ⟨.empty, []⟩ items with ⟨problems, declared, d⟩
  rw [all] at run
  cases problems with
  | cons => cases run
  | nil =>
      have same := (declareAll_tracks items tracks_empty all).1
      have widens : Scope.Widens ⟨host, d.names⟩ ⟨host', d.names⟩ := ⟨rfl, fits⟩
      rcases defined : defineAll ⟨host, d.names⟩ d.heap declared with ⟨problems, h⟩
      dsimp only at run ⊢
      rw [defined] at run
      cases problems with
      | cons => cases run
      | nil =>
          rw [widens.defineAll declared d.heap h (fun i member => ?_) defined]
          · exact run
          · exact free i.1 (same ▸ List.mem_map_of_mem member)

/-- A text without reals that loads on the narrow host loads on the wide one, to the same graph,
and whatever is done with it comes to the same. -/
theorem width_does_not_matter (text : String) (loaded : Loaded) (free : RealFree text)
    (loads : load .narrow text = .ok loaded) :
    load .wide text = .ok loaded ∧
      (∀ root, loadRoot .wide text root = loadRoot .narrow text root) ∧
      (∀ root options, image .wide text root options = image .narrow text root options) ∧
      ∀ given, Command.execute .wide given text = Command.execute .narrow given text := by
  obtain ⟨items, parsed, lowered⟩ := (load_eq_ok_iff .narrow text loaded).mp loads
  have lowered' := lower_widens (fun _ => Host.fits_wide) (fields_of_realFree free parsed) lowered
  have loads' := (load_eq_ok_iff .wide text loaded).mpr ⟨items, parsed, lowered'⟩
  have roots (root : Option String) : loadRoot .wide text root = loadRoot .narrow text root := by
    unfold loadRoot
    rw [loads, loads']
  refine ⟨loads', roots, fun root options => ?_, fun given => ?_⟩
  · unfold image
    rw [roots]
  · unfold Command.execute
    rw [roots]

def bucketText : String :=
  "class A \x7bmembers: \x7bm: \x7b-2147483648: var(2147483647), 0: nil\x7d\x7d\x7d"

theorem width_does_not_matter_for_bucket :
    ∃ loaded v, RealFree bucketText ∧ load .narrow bucketText = .ok loaded ∧
      loaded.item? "A" = some v ∧ (loaded.heap.dump v ⟨false, none⟩ none).1.error = none ∧
      load .wide bucketText = .ok loaded ∧ ∀ root options,
        image .wide bucketText root options = image .narrow bucketText root options := by
  have free : RealFree bucketText := by decide +kernel
  have checked : (load .narrow bucketText).toOption.any fun loaded =>
      (loaded.item? "A").any fun v =>
        decide ((loaded.heap.dump v ⟨false, none⟩ none).1.error = none) := by
    decide +kernel
  obtain ⟨loaded, loads, checked⟩ := exists_ok_of_any checked
  obtain ⟨v, found, unbroken⟩ := (Option.any_eq_true _ _).mp checked
  obtain ⟨loads', _, images, _⟩ := width_does_not_matter bucketText loaded free loads
  exact ⟨loaded, v, free, loads, found, of_decide_eq_true unbroken, loads', images⟩

end Snapshot

end StaticImage
