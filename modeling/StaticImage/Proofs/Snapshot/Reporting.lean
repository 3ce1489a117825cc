import StaticImage.Proofs.Snapshot.Graph
import StaticImage.Proofs.Snapshot.Steadiness

namespace StaticImage.Snapshot

def objectKinds : List String :=
  ["proto", "closure", "class", "module"]

namespace Item

/-- The name in front of an item, or else the string in its name field; a name field is a string. -/
inductive Called (i : Item) : String → Prop where
  | own {n : Located String} (own : i.name = some n)
      (shown : ∀ f, i.field? "name" = some f → ∃ content, f.value.value = .string content) :
      Called i n.value
  | field {f : Field} {content : String} (anonymous : i.name = none)
      (given : i.field? "name" = some f) (string : f.value.value = .string content) :
      Called i content

/-- An item is declared under a name if no earlier one is. -/
structure Claims (i : Item) (name : String) : Prop where
  kind : i.kind.value ∈ objectKinds
  called : i.Called name

end Item

inductive Undeclarable (earlier : List Item) (i : Item) : Prop where
  | unknown (object : i.kind.value ∉ objectKinds) (other : i.kind.value ≠ "builtins")
  | anonymous (object : i.kind.value ∈ objectKinds) (own : i.name = none)
      (field : i.field? "name" = none)
  | mistyped {f : Field} (object : i.kind.value ∈ objectKinds) (given : i.field? "name" = some f)
      (other : ∀ content, f.value.value ≠ .string content)
  | taken {j : Item} {name : String} (claims : i.Claims name) (member : j ∈ earlier)
      (before : j.Claims name)

section

variable {i : Item}

theorem called_unique {name other : String} (called : i.Called name) (again : i.Called other) :
    name = other := by
  cases called with
  | own own _ =>
      cases again with
      | own own' _ => rw [Option.some.inj (own.symm.trans own')]
      | field anonymous => rw [own] at anonymous; cases anonymous
  | field anonymous given string =>
      cases again with
      | own own => rw [own] at anonymous; cases anonymous
      | field _ given' string' =>
          cases Option.some.inj (given.symm.trans given')
          exact Expr.string.inj (string.symm.trans string')

def NamedWrong (i : Item) : Prop :=
  (i.name = none ∧ i.field? "name" = none) ∨
    ∃ f, i.field? "name" = some f ∧ ∀ content, f.value.value ≠ .string content

theorem NamedWrong.not_called (wrong : NamedWrong i) (name : String) : ¬ i.Called name := by
  intro called
  rcases wrong with ⟨anonymous, absent⟩ | ⟨f, given, other⟩
  · cases called with
    | own own => rw [anonymous] at own; cases own
    | field _ given => rw [absent] at given; cases given
  · cases called with
    | own _ shown =>
        obtain ⟨content, string⟩ := shown f given
        exact other content string
    | field _ given' string =>
        cases Option.some.inj (given.symm.trans given')
        exact other _ string

theorem itemName_cases (i : Item) :
    (∃ name span shown, itemName i = .ok (name, span, shown) ∧ i.Called name ∧ i.Bears span) ∨
      ∃ p, itemName i = .error p ∧ NamedWrong i ∧ i.Bears p.span := by
  have titled {n : Located String} (own : i.name = some n) : i.Bears n.span :=
    .part (by simp [Item.partSpans, own])
  unfold itemName
  cases given : i.field? "name" with
  | none =>
      cases own : i.name with
      | none => exact Or.inr ⟨_, rfl, Or.inl ⟨own, given⟩, .whole⟩
      | some n => exact Or.inl ⟨_, _, _, rfl, .own own (by simp [given]), titled own⟩
  | some f =>
      have valued : i.Bears f.value.span :=
        Bears.of_field .whole (List.mem_of_find?_eq_some given)
      dsimp only
      cases value : f.value.value with
      | string content =>
          cases own : i.name with
          | none => exact Or.inl ⟨_, _, _, rfl, .field own given value, .whole⟩
          | some n =>
              refine Or.inl ⟨_, _, _, rfl, .own own fun g there => ?_, titled own⟩
              rw [given] at there
              cases there
              exact ⟨content, value⟩
      | _ =>
          refine Or.inr ⟨_, rfl, Or.inr ⟨f, given, fun content same => ?_⟩, valued⟩
          rw [value] at same
          cases same

theorem itemKind_cases (i : Item) :
    (∃ k, itemKind i = .ok k ∧ i.kind.value = k.name) ∨
      ∃ p, itemKind i = .error p ∧ p.span = i.kind.span ∧ i.kind.value ∉ objectKinds ∧
        i.kind.value ≠ "builtins" := by
  cases found : itemKind i with
  | ok k => exact Or.inl ⟨k, rfl, kind_name found⟩
  | error p =>
      unfold itemKind at found
      split at found
      · cases found
      · rename_i none
        cases found
        have other := List.find?_eq_none.mp none
        have unlike (k : Kind) (listed : k ∈ [Kind.proto, .closure, .classKind, .moduleKind,
            .builtins]) : i.kind.value ≠ k.name := fun same =>
          other k listed (beq_iff_eq.mpr same.symm)
        refine Or.inr ⟨_, rfl, rfl, ?_, unlike .builtins (by simp)⟩
        simp only [objectKinds, List.mem_cons, List.not_mem_nil, or_false, not_or]
        exact ⟨unlike .proto (by simp), unlike .closure (by simp), unlike .classKind (by simp),
          unlike .moduleKind (by simp)⟩

def Knows (d : Declarations) (earlier : List Item) : Prop :=
  ∀ name, (d.names.lookup name).isSome = true ↔ ∃ j ∈ earlier, j.Claims name

theorem Knows.skip {d : Declarations} {earlier : List Item} (knows : Knows d earlier)
    (none : ∀ name, i.Claims name → ∃ j ∈ earlier, j.Claims name) :
    Knows d (earlier ++ [i]) := by
  intro name
  rw [knows name]
  constructor
  · rintro ⟨j, member, claims⟩
    exact ⟨j, List.mem_append_left _ member, claims⟩
  · rintro ⟨j, member, claims⟩
    rcases List.mem_append.mp member with old | new
    · exact ⟨j, old, claims⟩
    · cases List.mem_singleton.mp new
      exact none name claims

theorem Knows.add {d : Declarations} {earlier : List Item} (knows : Knows d earlier)
    {name : String} (claims : i.Claims name) (h : Heap) (what : Declared) :
    Knows ⟨h, d.names ++ [(name, what)]⟩ (earlier ++ [i]) := by
  intro other
  rw [List.lookup_append, Option.isSome_or, Bool.or_eq_true, knows other]
  have last : (List.lookup other [(name, what)]).isSome = true ↔ i.Claims other := by
    rw [List.lookup_cons]
    by_cases same : other = name
    · subst same
      simpa using claims
    · have different : (other == name) = false := beq_eq_false_iff_ne.mpr same
      rw [different]
      refine ⟨nofun, fun again => ?_⟩
      exact (same (called_unique again.called claims.called)).elim
  rw [last]
  simp only [List.mem_append, List.mem_singleton, or_and_right, exists_or, exists_eq_left]

theorem object_of_kind {k : Kind} (named : i.kind.value = k.name) (other : k ≠ .builtins) :
    i.kind.value ∈ objectKinds := by
  rw [named]
  cases k with
  | builtins => exact (other rfl).elim
  | _ => simp [Kind.name, objectKinds]

theorem allocate_some (h : Heap) (i : Item) (shown : String) {k : Kind} (other : k ≠ .builtins) :
    ∃ d h', allocate h i shown k = some (d, h') := by
  cases k with
  | builtins => exact (other rfl).elim
  | closure =>
      unfold allocate
      dsimp only
      split <;> exact ⟨_, _, rfl⟩
  | _ => exact ⟨_, _, rfl⟩

theorem declare_cases {d : Declarations} {earlier : List Item} (knows : Knows d earlier)
    (i : Item) :
    (∃ what d', declare d i = .ok (what, d') ∧ ¬ Undeclarable earlier i ∧
        Knows d' (earlier ++ [i])) ∨
      ∃ p, declare d i = .error p ∧ Undeclarable earlier i ∧ i.Bears p.span ∧
        Knows d (earlier ++ [i]) := by
  unfold declare
  rcases itemKind_cases i with ⟨k, found, named⟩ | ⟨p, failed, place, object, other⟩
  · rw [found]
    by_cases table : k = .builtins
    · subst table
      have object : i.kind.value ∉ objectKinds := by
        rw [named]
        decide
      refine Or.inl ⟨none, d, rfl, fun wrong => ?_, knows.skip fun _ claims => ?_⟩
      · cases wrong with
        | unknown _ other => exact other named
        | anonymous kind => exact object kind
        | mistyped kind => exact object kind
        | taken claims => exact object claims.kind
      · exact (object claims.kind).elim
    · have object := object_of_kind named table
      rcases itemName_cases i with ⟨name, span, shown, titled, called, bears⟩ |
        ⟨p, failed, wrong, bears⟩
      · rw [titled]
        have claims : i.Claims name := ⟨object, called⟩
        have only (other : String) (again : i.Claims other) : other = name :=
          called_unique again.called called
        dsimp only [Bind.bind, Except.bind]
        rw [if_neg table]
        by_cases taken : (d.names.lookup name).isSome = true
        · rw [if_pos taken]
          obtain ⟨j, member, before⟩ := (knows name).mp taken
          refine Or.inr ⟨_, rfl, .taken claims member before, bears, knows.skip ?_⟩
          intro other again
          rw [only other again]
          exact ⟨j, member, before⟩
        · rw [if_neg taken]
          obtain ⟨what, h, made⟩ := allocate_some d.heap i shown table
          rw [made]
          refine Or.inl ⟨_, _, rfl, fun wrong => ?_, knows.add claims h what⟩
          cases wrong with
          | unknown other => exact other object
          | anonymous _ own field => exact NamedWrong.not_called (Or.inl ⟨own, field⟩) name called
          | mistyped _ given other =>
              exact NamedWrong.not_called (Or.inr ⟨_, given, other⟩) name called
          | taken again member before =>
              rw [only _ again] at before
              exact taken ((knows name).mpr ⟨_, member, before⟩)
      · rw [failed]
        refine Or.inr ⟨p, ?_, ?_, bears, knows.skip fun name claims => ?_⟩
        · dsimp only [Bind.bind, Except.bind]
          rw [if_neg table]
        · rcases wrong with ⟨anonymous, absent⟩ | ⟨f, given, other⟩
          · exact .anonymous object anonymous absent
          · exact .mistyped object given other
        · exact (wrong.not_called name claims.called).elim
  · rw [failed]
    refine Or.inr ⟨p, rfl, .unknown object other, ?_, knows.skip fun _ claims => ?_⟩
    · rw [place]
      exact .part List.mem_cons_self
    · exact (object claims.kind).elim

end

/-- A problem for each item that fails, given those before it, at a place in the item. -/
inductive Reports (fails : List Item → Item → Prop) :
    List Item → List Item → List (Item × Located Problem) → Prop where
  | nil (earlier : List Item) : Reports fails earlier [] []
  | sound {earlier items : List Item} {i : Item} {reported : List (Item × Located Problem)}
      (sound : ¬ fails earlier i) (others : Reports fails (earlier ++ [i]) items reported) :
      Reports fails earlier (i :: items) reported
  | wrong {earlier items : List Item} {i : Item} {p : Located Problem}
      {reported : List (Item × Located Problem)} (wrong : fails earlier i) (bears : i.Bears p.span)
      (others : Reports fails (earlier ++ [i]) items reported) :
      Reports fails earlier (i :: items) ((i, p) :: reported)

namespace Reports

variable {fails : List Item → Item → Prop} {earlier items : List Item}
  {reported : List (Item × Located Problem)}

theorem sublist (reports : Reports fails earlier items reported) :
    (reported.map Prod.fst).Sublist items := by
  induction reports with
  | nil => exact .slnil
  | sound _ _ ih => exact ih.cons _
  | wrong _ _ _ ih => exact ih.cons_cons _

theorem bears (reports : Reports fails earlier items reported) :
    ∀ r ∈ reported, r.1.Bears r.2.span := by
  induction reports with
  | nil => exact nofun
  | sound _ _ ih => exact ih
  | wrong _ bears _ ih => exact List.forall_mem_cons.mpr ⟨bears, ih⟩

/-- Among items that are all different, those that fail are those that are reported. -/
theorem reported_iff (reports : Reports fails earlier items reported) (distinct : items.Nodup)
    {front back : List Item} {i : Item} (split : items = front ++ i :: back) :
    (∃ p, (i, p) ∈ reported) ↔ fails (earlier ++ front) i := by
  induction reports generalizing front with
  | nil => simp at split
  | @sound earlier items j reported sound others ih =>
      obtain ⟨fresh, distinct⟩ := List.nodup_cons.mp distinct
      cases front with
      | nil =>
          cases split
          rw [List.append_nil]
          refine ⟨fun ⟨p, member⟩ => ?_, fun fails => (sound fails).elim⟩
          exact (fresh (others.sublist.subset (List.mem_map_of_mem member))).elim
      | cons first front =>
          cases split
          have later := ih distinct rfl
          rwa [List.append_assoc] at later
  | @wrong earlier items j p reported wrong bears others ih =>
      obtain ⟨fresh, distinct⟩ := List.nodup_cons.mp distinct
      cases front with
      | nil =>
          cases split
          rw [List.append_nil]
          exact ⟨fun _ => wrong, fun _ => ⟨p, List.mem_cons_self⟩⟩
      | cons first front =>
          cases split
          have later := ih distinct rfl
          rw [List.append_assoc] at later
          refine Iff.trans ⟨fun ⟨q, member⟩ => ?_, fun ⟨q, member⟩ => ?_⟩ later
          · rcases List.mem_cons.mp member with same | inside
            · cases same
              exact (fresh (List.mem_append_right _ List.mem_cons_self)).elim
            · exact ⟨q, inside⟩
          · exact ⟨q, List.mem_cons_of_mem _ member⟩

end Reports

theorem declareAll_reports (items : List Item) {earlier : List Item} {d d' : Declarations}
    {problems : List (Located Problem)} {declared : List (Item × Option Declared)}
    (knows : Knows d earlier) (run : declareAll d items = (problems, declared, d')) :
    ∃ reported, problems = reported.map Prod.snd ∧
      Reports Undeclarable earlier items reported := by
  induction items generalizing earlier d d' problems declared with
  | nil =>
      cases run
      exact ⟨[], rfl, .nil earlier⟩
  | cons i items ih =>
      rw [declareAll] at run
      rcases declare_cases knows i with ⟨what, mid, first, sound, known⟩ |
        ⟨p, first, wrong, bears, known⟩
      · rw [first] at run
        rcases rest : declareAll mid items with ⟨others, later, last⟩
        obtain ⟨reported, same, reports⟩ := ih known rest
        dsimp only at run
        rw [rest] at run
        cases run
        exact ⟨reported, same, .sound sound reports⟩
      · rw [first] at run
        rcases rest : declareAll d items with ⟨others, later, last⟩
        obtain ⟨reported, same, reports⟩ := ih known rest
        dsimp only at run
        rw [rest] at run
        cases run
        exact ⟨(i, p) :: reported, congrArg (p :: ·) same, .wrong wrong bears reports⟩

def Undefinable (s : Scope) (declared : List (Item × Option Declared)) (i : Item) : Prop :=
  ∃ what, (i, what) ∈ declared ∧ ¬ i.Definable s what

theorem defineAll_reports {s : Scope} {declared all : List (Item × Option Declared)}
    (inside : ∀ entry ∈ declared, entry ∈ all) (distinct : (all.map Prod.fst).Nodup)
    (earlier : List Item) {h h' : Heap} {problems : List (Located Problem)}
    (run : defineAll s h declared = (problems, h')) :
    ∃ reported, problems = reported.map Prod.snd ∧
      Reports (fun _ => Undefinable s all) earlier (declared.map Prod.fst) reported := by
  induction declared generalizing earlier h h' problems with
  | nil =>
      cases run
      exact ⟨[], rfl, .nil earlier⟩
  | cons entry declared ih =>
      obtain ⟨i, what⟩ := entry
      have here := inside (i, what) List.mem_cons_self
      have there (entry : Item × Option Declared) (member : entry ∈ declared) :=
        inside entry (List.mem_cons_of_mem _ member)
      rw [defineAll] at run
      cases defined : define s i what h with
      | ok outcome =>
          obtain ⟨⟨⟩, mid⟩ := outcome
          rw [defined] at run
          obtain ⟨reported, same, reports⟩ := ih there (earlier ++ [i]) run
          refine ⟨reported, same, .sound ?_ reports⟩
          rintro ⟨other, member, wrong⟩
          have definable := define_succeeds_iff.mp ((define_steady.succeeds_iff h).mp ⟨_, defined⟩)
          obtain rfl : what = other :=
            congrArg Prod.snd (List.inj_on_of_nodup_map distinct here member rfl)
          exact wrong definable
      | error p =>
          rw [defined] at run
          rcases rest : defineAll s h declared with ⟨others, last⟩
          obtain ⟨reported, same, reports⟩ := ih there (earlier ++ [i]) rest
          dsimp only at run
          rw [rest] at run
          cases run
          refine ⟨(i, p) :: reported, congrArg (p :: ·) same,
            .wrong ⟨what, here, fun definable => ?_⟩ (define_steady.place_of_error defined) reports⟩
          obtain ⟨outcome, run⟩ := define_succeeds_iff.mpr definable h
          rw [run] at defined
          cases defined

structure Accounts (host : Host) (items : List Item) (reported : List (Item × Located Problem)) :
    Prop where
  single : items.Nodup
  order : (reported.map Prod.fst).Sublist items
  place : ∀ r ∈ reported, r.2.span.Within r.1.span
  apart : (reported.map fun r => r.2.span).Pairwise fun a b => a.stop ≤ b.start
  declaring : (∃ front i back, items = front ++ i :: back ∧ Undeclarable front i) →
    ∀ front i back, items = front ++ i :: back →
      ((∃ p, (i, p) ∈ reported) ↔ Undeclarable front i)
  defining : (∀ front i back, items = front ++ i :: back → ¬ Undeclarable front i) →
    (declaredOf items).map Prod.fst = items ∧
      ∀ i ∈ items, (∃ p, (i, p) ∈ reported) ↔
        Undefinable (scopeOf host items) (declaredOf items) i

theorem Span.Encloses.nodup {outer : Span} {items : List Item}
    (encloses : outer.Encloses (items.map Item.span)) : items.Nodup := by
  refine List.Nodup.of_map Item.span ?_
  refine encloses.apart.imp_of_mem fun {a b} first _ apart same => ?_
  have filled := (encloses.within a first).filled
  rw [same] at filled apart
  omega

theorem Reports.apart {fails : List Item → Item → Prop} {earlier items : List Item}
    {reported : List (Item × Located Problem)} (reports : Reports fails earlier items reported)
    (apart : (items.map Item.span).Pairwise fun a b => a.stop ≤ b.start)
    (place : ∀ r ∈ reported, r.2.span.Within r.1.span) :
    (reported.map fun r => r.2.span).Pairwise fun a b => a.stop ≤ b.start := by
  have items_apart := apart.sublist (reports.sublist.map Item.span)
  rw [List.map_map, List.pairwise_map] at items_apart
  rw [List.pairwise_map]
  refine items_apart.imp_of_mem fun first second between => ?_
  have last := (place _ first).before
  have start := (place _ second).after
  simp only [Function.comp_apply] at between
  omega

theorem load_of_parsed {host : Host} {text : String} {items : List Item}
    (parsed : parse text = .ok items) :
    load host text = match lower host items with
      | .error problems => .error (.items problems)
      | .ok loaded => .ok loaded := by
  unfold load
  rewrite [parsed]
  rfl

theorem load_of_unparsed {host : Host} {text : String} {errors : List TextError}
    (unparsed : parse text = .error errors) : load host text = .error (.text errors) := by
  unfold load
  rewrite [unparsed]
  rfl

/-- At most one problem is reported of each item of a text, in the order of the items and at a place
inside the item: of each item that cannot be declared, or if all can be, of each that cannot be
defined. The text loads exactly if none is reported. -/
theorem problems_are_located_and_complete (host : Host) (text : String) (items : List Item)
    (parsed : parse text = .ok items) :
    ∃ reported, Accounts host items reported ∧
      ((reported = [] ∧ ∃ loaded, load host text = .ok loaded) ∨
        (reported ≠ [] ∧ load host text = .error (.items (reported.map Prod.snd)))) := by
  obtain ⟨encloses, nested⟩ := parse_nests parsed
  have distinct := Span.Encloses.nodup encloses
  have placed {fails : List Item → Item → Prop} {reported : List (Item × Located Problem)}
      (reports : Reports fails [] items reported) : ∀ r ∈ reported, r.2.span.Within r.1.span :=
    fun r member => (reports.bears r member).within
      (nested r.1 (reports.sublist.subset (List.mem_map_of_mem member)))
  rcases all : declareAll ⟨.empty, []⟩ items with ⟨problems, declared, d⟩
  have nothing : Knows ⟨.empty, []⟩ [] := by simp [Knows]
  obtain ⟨reported, rfl, reports⟩ := declareAll_reports items nothing all
  have lowered := lower.eq_def host items
  rw [all] at lowered
  rw [load_of_parsed parsed]
  cases reported with
  | nil =>
      rw [List.map_nil] at all lowered
      have declarable (front : List Item) (i : Item) (back : List Item)
          (split : items = front ++ i :: back) : ¬ Undeclarable front i := fun wrong => by
        simpa using (reports.reported_iff distinct split).mpr wrong
      have same := (declareAll_tracks items tracks_empty all).1
      rcases defined : defineAll ⟨host, d.names⟩ d.heap declared with ⟨problems, h⟩
      obtain ⟨reported, rfl, reports⟩ :=
        defineAll_reports (fun _ member => member) (same.symm ▸ distinct) [] defined
      rw [same] at reports
      refine ⟨reported, ⟨distinct, reports.sublist, placed reports,
        reports.apart encloses.apart (placed reports), ?_, fun _ => ⟨?_, fun i member => ?_⟩⟩, ?_⟩
      · rintro ⟨front, i, back, split, wrong⟩
        exact (declarable front i back split wrong).elim
      · rw [declaredOf, all]
        exact same
      · obtain ⟨front, back, split⟩ := List.append_of_mem member
        rw [scopeOf, declaredOf, all]
        exact reports.reported_iff distinct split
      · dsimp only at lowered
        rw [defined] at lowered
        rw [lowered]
        cases reported with
        | nil => exact Or.inl ⟨rfl, _, rfl⟩
        | cons r others => exact Or.inr ⟨List.cons_ne_nil r others, rfl⟩
  | cons r others =>
      have first : (r.1, r.2) ∈ r :: others := List.mem_cons_self
      refine ⟨r :: others, ⟨distinct, reports.sublist, placed reports,
        reports.apart encloses.apart (placed reports), fun _ front i back split => ?_,
        fun sound => ?_⟩, Or.inr ⟨List.cons_ne_nil r others, ?_⟩⟩
      · exact reports.reported_iff distinct split
      · obtain ⟨front, back, split⟩ :=
          List.append_of_mem (reports.sublist.subset (List.mem_map_of_mem first))
        exact (sound front r.1 back split
          ((reports.reported_iff distinct split).mp ⟨r.2, first⟩)).elim
      · rw [lowered]
        rfl

def problemsOf : Except LoadError Loaded → List (Problem × Span)
  | .error (.items problems) => problems.map fun p => (p.value, p.span)
  | _ => []

/-- A name field that is no string takes no name, and a closure is not defined if others are not
declared. -/
def undeclaredText : String :=
  "class A \x7bname: 1\x7d closure f \x7bupvals: [g]\x7d class A \x7b\x7d " ++
  "kind k \x7b\x7d class A \x7b\x7d"

/-- Three items that cannot be defined, one for a key deep in a value of its field. -/
def undefinedText : String :=
  "class A \x7bnvar: 1, nvar: 2\x7d closure f \x7bupvals: [f, [\x7bnil: 1\x7d]]\x7d " ++
  "class B \x7bsuper: A\x7d builtins \x7bx: 1\x7d"

theorem broken_items_are_reported :
    (∃ items reported, parse undeclaredText = .ok items ∧ Accounts .wide items reported ∧
      reported.map (fun r => (r.2.value, r.2.span)) =
        [(.mismatch "string" "integer", ⟨15, 16⟩), (.unknownKind "kind", ⟨53, 57⟩),
          (.duplicateItem "A", ⟨69, 70⟩)]) ∧
      ∃ items reported, parse undefinedText = .ok items ∧ Accounts .wide items reported ∧
        reported.map (fun r => (r.2.value, r.2.span)) =
          [(.duplicateField "nvar", ⟨18, 22⟩), (.nilKey, ⟨52, 55⟩),
            (.unknownField "builtins" "x", ⟨92, 93⟩)] := by
  have reports (text : String) (first : Problem × Span) (others : List (Problem × Span))
      (told : problemsOf (load .wide text) = first :: others) :
      ∃ items reported, parse text = .ok items ∧ Accounts .wide items reported ∧
        reported.map (fun r => (r.2.value, r.2.span)) = first :: others := by
    obtain ⟨items, parsed⟩ : ∃ items, parse text = .ok items := by
      cases result : parse text with
      | ok items => exact ⟨items, rfl⟩
      | error errors =>
          rw [load_of_unparsed result] at told
          cases told
    obtain ⟨reported, accounts, ⟨rfl, loaded, loads⟩ | ⟨_, loads⟩⟩ :=
      problems_are_located_and_complete .wide text items parsed
    · rw [loads] at told
      cases told
    · rw [loads, problemsOf, List.map_map] at told
      exact ⟨items, reported, parsed, accounts, told⟩
  exact ⟨reports _ _ _ (by decide +kernel), reports _ _ _ (by decide +kernel)⟩

end StaticImage.Snapshot
