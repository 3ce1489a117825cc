import StaticImage.Proofs.Snapshot.Reporting
import StaticImage.Proofs.Snapshot.Twins

/-!
Closures that name their prototype. Their upvalues are values even where these are lists, but a list
of nothing but lists is taken for the pairs of a prototype, which such a closure does not have.
-/

namespace StaticImage.Snapshot

open Load

theorem Load.Succeeds.bind {α β : Type} {m : Load α} {next : α → Load β} (first : Succeeds m)
    (rest : ∀ a, Succeeds (next a)) : Succeeds (m >>= next) := by
  intro h
  obtain ⟨⟨a, mid⟩, run⟩ := first h
  obtain ⟨outcome, run'⟩ := rest a mid
  refine ⟨outcome, ?_⟩
  change (m h >>= fun p => next p.1 p.2) = .ok outcome
  rw [run]
  exact run'

theorem Load.succeeds_pure {α : Type} (a : α) : Succeeds (pure a : Load α) :=
  fun h => ⟨(a, h), rfl⟩

theorem Load.succeeds_modify (f : Heap → Heap) : Succeeds (modify f : Load Unit) :=
  fun h => ⟨((), f h), rfl⟩

def OnlyLists (captured : List (Located Expr)) : Prop :=
  captured ≠ [] ∧ ∀ e ∈ captured, ∃ items, e.value = .list items

/-- An item of a closure with no fields but its prototype and a list of expressions for its upvalues,
each of which comes to a value. -/
structure Item.Captures (i : Item) (s : Scope) (proto upvalues : Field) (id : ProtoId)
    (captured : List (Located Expr)) : Prop where
  kind : i.kind.value = "closure"
  fields : i.fields = [proto, upvalues] ∨ i.fields = [upvalues, proto]
  proto_name : proto.name.value = "proto"
  upvalues_name : upvalues.name.value = "upvals"
  names : s.NamesProto proto.value.value.form id
  listed : upvalues.value.value = .list captured
  values : ∀ e ∈ captured, ∃ h outcome, valueOf s e h = .ok outcome

section

variable {s : Scope} {i : Item} {proto upvalues : Field} {id : ProtoId}
  {captured : List (Located Expr)}

theorem areCaptured_eq_false_iff : areCaptured (.list captured) = false ↔ OnlyLists captured := by
  cases captured with
  | nil => simp [areCaptured, OnlyLists]
  | cons first rest =>
      rw [areCaptured, List.any_eq_false, OnlyLists, and_iff_right (List.cons_ne_nil first rest)]
      · refine forall₂_congr fun e _ => ?_
        cases e.value <;> simp
      · simp

theorem succeeds_of_value {e : Located Expr} {h : Heap} {outcome : Value × Heap}
    (run : valueOf s e h = .ok outcome) : Succeeds (valueOf s e) := by
  have steady : Steady (Bears e) (valueOf s e) :=
    (value_alike s e.value e.span).mono (fun _ bears => bears) fun _ _ _ => trivial
  exact (steady.succeeds_iff h).mp ⟨outcome, run⟩

theorem values_succeed (items : List (Located Expr))
    (each : ∀ e ∈ items, Succeeds (valueOf s e)) : Succeeds (values s items) := by
  induction items with
  | nil => exact succeeds_pure []
  | cons e items ih =>
      have here := each e List.mem_cons_self
      have there := ih fun e member => each e (List.mem_cons_of_mem _ member)
      unfold values
      exact here.bind fun v => there.bind fun vs => succeeds_pure (v :: vs)

theorem valuesOf_of_list {e : Located Expr} (listed : e.value = .list captured) :
    valuesOf s e = values s captured := by
  rw [valuesOf, listOf, listed]
  rfl

theorem define_unknown {what : Option Declared} (front : List Field) {back : List Field} {f : Field}
    (fields : i.fields = front ++ f :: back)
    (distinct : (i.fields.map fun f => f.name.value).Nodup)
    (known : ∀ g ∈ front, ∃ effect, field? s g what = some effect ∧ Succeeds effect)
    (unknown : field? s f what = none) (h : Heap) :
    define s i what h = .error ⟨.unknownField i.kind.value f.name.value, f.name.span⟩ := by
  unfold define
  rw [duplicate?_eq_none_iff.mpr distinct, fields]
  dsimp only
  clear fields distinct
  induction front generalizing h with
  | nil =>
      rw [List.nil_append, List.forM, unknown]
      rfl
  | cons g front ih =>
      obtain ⟨effect, found, succeeds⟩ := known g List.mem_cons_self
      obtain ⟨⟨⟨⟩, mid⟩, run⟩ := succeeds h
      have later := ih (fun g member => known g (List.mem_cons_of_mem _ member)) mid
      rw [List.cons_append, List.forM, found]
      change (effect h >>= fun p => _) = _
      rw [run]
      exact later

theorem protoRef_of_named {e : Located Expr} (names : s.NamesProto e.value.form id) (h : Heap) :
    protoRef s e h = .ok (id, h) := by
  obtain ⟨e, span⟩ := e
  obtain ⟨name, form, found⟩ := names
  cases e with
  | ref other =>
      cases form
      change (resolve s ⟨.ref name, span⟩ h >>= _) = _
      have resolved : resolve s ⟨.ref name, span⟩ h = .ok ((name, .proto id), h) := by
        dsimp only [resolve]
        rw [found]
        rfl
      rw [resolved]
      rfl
  | _ => cases form

namespace Item.Captures

variable (captures : i.Captures s proto upvalues id captured)

include captures

theorem distinct : (i.fields.map fun f => f.name.value).Nodup := by
  rcases captures.fields with fields | fields
  all_goals
    rw [fields]
    simp [captures.proto_name, captures.upvalues_name]

theorem mem_iff (f : Field) : f ∈ i.fields ↔ f = proto ∨ f = upvalues := by
  rcases captures.fields with fields | fields
  all_goals
    rw [fields]
    simp [or_comm]

theorem lookup_proto : i.given.lookup "proto" = some proto.value.value.form := by
  rcases captures.fields with fields | fields
  all_goals
    simp [Item.given, fields, captures.proto_name, captures.upvalues_name, List.lookup_cons]

theorem lookup_upvalues : i.given.lookup "upvals" = some (.list (formsOf captured)) := by
  have form : upvalues.value.value.form = .list (formsOf captured) := by
    rw [captures.listed, Expr.form]
  rcases captures.fields with fields | fields
  all_goals
    simp [Item.given, fields, captures.proto_name, captures.upvalues_name, form, List.lookup_cons]

theorem declared {what : Option Declared} (kind : i.DeclaredAs what) :
    ∃ closure, what = some (.closure closure none) := by
  have named := captures.kind
  rcases what with _ | ⟨x | ⟨closure, own⟩ | x | x⟩
  case some.closure =>
    obtain ⟨_, own_iff⟩ := kind
    rw [captures.lookup_proto, Option.isSome_some, Option.isNone_iff_eq_none] at own_iff
    exact ⟨closure, by rw [own_iff]⟩
  all_goals
    simp [Item.DeclaredAs, named] at kind

theorem proto_succeeds (closure : ClosureId) :
    ∃ effect, Snapshot.field? s proto (some (.closure closure none)) = some effect ∧
      Succeeds effect := by
  refine ⟨_, by rw [Snapshot.field?, closureField?, if_pos captures.proto_name], ?_⟩
  refine Succeeds.bind (fun h => ?_) fun x => succeeds_modify _
  exact ⟨_, protoRef_of_named captures.names h⟩

theorem upvalues_succeed (closure : ClosureId) (mixed : ¬ OnlyLists captured) :
    ∃ effect, Snapshot.field? s upvalues (some (.closure closure none)) = some effect ∧
      Succeeds effect := by
  have other : upvalues.name.value ≠ "proto" := by simp [captures.upvalues_name]
  have are : upvalues.name.value = "upvals" ∧ areCaptured upvalues.value.value := by
    rw [captures.listed, ← Bool.not_eq_false, areCaptured_eq_false_iff]
    exact ⟨captures.upvalues_name, mixed⟩
  refine ⟨_, by rw [Snapshot.field?, closureField?, if_neg other, if_pos are], ?_⟩
  refine Succeeds.bind ?_ fun x => succeeds_modify _
  rw [valuesOf_of_list captures.listed]
  refine values_succeed captured fun e member => ?_
  obtain ⟨h, outcome, run⟩ := captures.values e member
  exact succeeds_of_value run

theorem upvalues_unknown (closure : ClosureId) (lists : OnlyLists captured) :
    Snapshot.field? s upvalues (some (.closure closure none)) = none := by
  have other : upvalues.name.value ≠ "proto" := by simp [captures.upvalues_name]
  have pairs : areCaptured upvalues.value.value = false := by
    rw [captures.listed]
    exact areCaptured_eq_false_iff.mpr lists
  rw [Snapshot.field?, closureField?, if_neg other, if_neg (by simp [pairs])]
  rfl

theorem definable (closure : ClosureId) (mixed : ¬ OnlyLists captured) :
    i.Definable s (some (.closure closure none)) := by
  refine ⟨captures.distinct, fun f member => ?_⟩
  rcases (captures.mem_iff f).mp member with rfl | rfl
  · exact captures.proto_succeeds closure
  · exact captures.upvalues_succeed closure mixed

theorem undefinable (closure : ClosureId) (lists : OnlyLists captured) (h : Heap) :
    define s i (some (.closure closure none)) h =
      .error ⟨.unknownField "closure" "upvals", upvalues.name.span⟩ := by
  have unknown := captures.upvalues_unknown closure lists
  rw [← captures.kind, ← captures.upvalues_name]
  rcases captures.fields with fields | fields
  · refine define_unknown [proto] fields captures.distinct (fun g member => ?_) unknown h
    rw [List.mem_singleton.mp member]
    exact captures.proto_succeeds closure
  · exact define_unknown [] fields captures.distinct nofun unknown h

theorem closure_of_fits {h : Heap} {own : Option ProtoId} {c : Closure}
    (fits : ClosureFits s h (fun field => i.given.lookup field) own c)
    (mixed : ¬ OnlyLists captured) :
    c.proto = id ∧ s.MeansAll h (formsOf captured) c.captured := by
  constructor
  · obtain ⟨name, form, found⟩ := captures.names
    obtain ⟨other, same, again⟩ := fits.proto _ captures.lookup_proto
    rw [form] at same
    cases same
    cases found.symm.trans again
    rfl
  · have given : Given.get (fun field => i.given.lookup field) "upvals" (.list []) =
        .list (formsOf captured) := by
      rw [Given.get, captures.lookup_upvalues, Option.getD_some]
    have are : (Form.list (formsOf captured)).isCaptured := by
      rw [← Expr.form, ← areCaptured_eq, ← Bool.not_eq_false, areCaptured_eq_false_iff]
      exact mixed
    obtain ⟨items, same, means⟩ := fits.captured (by rw [given]; exact are)
    rw [given] at same
    cases same
    exact means

end Item.Captures

def Scope.Holds (s : Scope) (h : Heap) (closure : ClosureId) (id : ProtoId)
    (captured : List (Located Expr)) : Prop :=
  ∃ vs, h.closureAt? closure = some ⟨id, vs⟩ ∧ s.MeansAll h (formsOf captured) vs

theorem Item.Captures.holds (captures : i.Captures s proto upvalues id captured) {h : Heap}
    {shown : String} {closure : ClosureId} {own : Option ProtoId}
    (describes : Describes s h shown (fun field => i.given.lookup field) (.closure closure own))
    (mixed : ¬ OnlyLists captured) : s.Holds h closure id captured := by
  obtain ⟨⟨⟨there, vs⟩, present, fits⟩, _⟩ := describes
  obtain ⟨same, means⟩ := captures.closure_of_fits fits mixed
  dsimp only at same means
  exact ⟨vs, same ▸ present, means⟩

/-- What goes wrong with an item in every heap is reported, whatever comes before it. -/
theorem mem_problems {declared : List (Item × Option Declared)} {what : Option Declared}
    {p : Located Problem} (member : (i, what) ∈ declared)
    (fails : ∀ h, define s i what h = .error p) (h : Heap) : p ∈ (defineAll s h declared).1 := by
  induction declared generalizing h with
  | nil => cases member
  | cons entry rest ih =>
      obtain ⟨j, other⟩ := entry
      rw [defineAll]
      rcases List.mem_cons.mp member with here | later
      · cases here
        rw [fails h]
        exact List.mem_cons_self
      · cases define s j other h with
        | ok outcome => exact ih later outcome.2
        | error q => exact List.mem_cons_of_mem q (ih later h)

end

section

variable {host : Host} {items : List Item} {i : Item}

theorem lower_reports {what : Option Declared} {p : Located Problem}
    (declares : (declareAll ⟨.empty, []⟩ items).1 = []) (member : (i, what) ∈ declaredOf items)
    (fails : ∀ h, define (scopeOf host items) i what h = .error p) :
    ∃ problems, lower host items = .error problems ∧ p ∈ problems := by
  have reported := mem_problems member fails (heapOf items)
  rw [lower]
  rw [scopeOf, heapOf, declaredOf] at reported
  rcases all : declareAll ⟨.empty, []⟩ items with ⟨problems, declared, d⟩
  rw [all] at declares reported
  dsimp only at declares reported ⊢
  subst declares
  dsimp only
  rcases defined : defineAll ⟨host, d.names⟩ d.heap declared with ⟨problems, h⟩
  rw [defined] at reported
  cases problems with
  | nil => cases reported
  | cons q others => exact ⟨q :: others, rfl, reported⟩

theorem Lowers.describes {loaded : Loaded} (lowers : Lowers host items loaded) {d : Declared}
    (member : (i, some d) ∈ declaredOf items) :
    Describes (scopeOf host items) loaded.heap i.shown (fun field => i.given.lookup field) d := by
  have represents := lowers.represents
  have names : (scopeOf host items).names = namesOf (declaredOf items) := lowers.tracks.names
  have entry : (i.title, d) ∈ (scopeOf host items).names := by
    rw [names]
    exact List.mem_filterMap.mpr ⟨(i, some d), member, rfl⟩
  obtain ⟨j, other, title, kind, describes⟩ :=
    represents.item i.title d (lookup_of_mem represents.distinct entry)
  have mine : i ∈ items := lowers.all ▸ List.mem_map_of_mem member
  obtain rfl : j = i :=
    represents.title_unique other mine kind (lowers.tracks.kinds i _ member) title
  exact describes

end

/-- A closure that names its prototype has the values of its upvalues in order, lists among them, if
there is one that is no list or none at all, and the prototype stays what its own item says. Where
all of them are lists, the field of the upvalues is one that the item does not know. -/
theorem captured_upvalues_are_kept_unless_all_are_lists (host : Host) (items : List Item)
    (declares : (declareAll ⟨.empty, []⟩ items).1 = []) (i : Item) (member : i ∈ items)
    (proto upvalues : Field) (id : ProtoId) (captured : List (Located Expr))
    (captures : i.Captures (scopeOf host items) proto upvalues id captured) :
    ∃ closure, (i, some (.closure closure none)) ∈ declaredOf items ∧
      (OnlyLists captured → ∃ problems, lower host items = .error problems ∧
        ⟨.unknownField "closure" "upvals", upvalues.name.span⟩ ∈ problems) ∧
      (¬ OnlyLists captured →
        (∀ h, ∃ h', define (scopeOf host items) i (some (.closure closure none)) h = .ok ((), h') ∧
          ((scopeOf host items).Known h →
            Describes (scopeOf host items) h i.shown (fun _ => none) (.closure closure none) →
            (scopeOf host items).Holds h' closure id captured ∧
              ∀ o, h.Has o → o ≠ .closure closure → Heap.SameAt h h' o)) ∧
        ∀ loaded, lower host items = .ok loaded →
          (scopeOf host items).Holds loaded.heap closure id captured ∧
          ∃ j ∈ items, proto.value.value.form = .ref j.title ∧
            Describes (scopeOf host items) loaded.heap j.shown (fun field => j.given.lookup field)
              (.proto id)) := by
  rcases all : declareAll ⟨.empty, []⟩ items with ⟨problems, declared, d⟩
  obtain rfl : problems = [] := by rw [← declares, all]
  obtain ⟨same, tracks⟩ := declareAll_tracks items tracks_empty all
  have listed : declaredOf items = declared := by rw [declaredOf, all]
  obtain ⟨⟨_, what⟩, inside, rfl⟩ := List.mem_map.mp (same.symm ▸ member)
  obtain ⟨closure, rfl⟩ := captures.declared (tracks.kinds _ what inside)
  rw [← listed] at inside
  refine ⟨closure, inside, fun lists => ?_, fun mixed => ⟨fun h => ?_, ?_⟩⟩
  · exact lower_reports declares inside (captures.undefinable closure lists)
  · obtain ⟨⟨⟨⟩, h'⟩, run⟩ := define_succeeds_iff.mpr (captures.definable closure mixed) h
    refine ⟨h', run, fun known describes => ?_⟩
    obtain ⟨extends_, _, now⟩ := define_describes run known describes
    refine ⟨captures.holds now mixed, fun o has other => ?_⟩
    exact extends_.changes.same o has (by simpa [Declared.objects] using other)
  · intro loaded lowered
    have lowers := lower_lowers lowered
    refine ⟨captures.holds (lowers.describes inside) mixed, ?_⟩
    obtain ⟨name, form, found⟩ := captures.names
    obtain ⟨j, mine, rfl, _, describes⟩ := lowers.represents.item name _ found
    exact ⟨j, mine, form, describes⟩

section

def pairItem : Item :=
  ⟨⟨"proto", ⟨0, 5⟩⟩, some ⟨"p", ⟨6, 7⟩⟩,
    [⟨⟨"upvals", ⟨9, 15⟩⟩,
      ⟨.list [⟨.list [⟨.int 1, ⟨19, 20⟩⟩, ⟨.int 2, ⟨22, 23⟩⟩], ⟨18, 24⟩⟩], ⟨17, 25⟩⟩⟩], ⟨0, 26⟩⟩

def protoField : Field :=
  ⟨⟨"proto", ⟨38, 43⟩⟩, ⟨.ref "p", ⟨45, 46⟩⟩⟩

def upvaluesField (captured : Located Expr) : Field :=
  ⟨⟨"upvals", ⟨48, 54⟩⟩, captured⟩

def capturingItem (captured : Located Expr) : Item :=
  ⟨⟨"closure", ⟨27, 34⟩⟩, some ⟨"c", ⟨35, 36⟩⟩, [protoField, upvaluesField captured],
    ⟨27, captured.span.stop + 1⟩⟩

def capturingItems (captured : Located Expr) : List Item :=
  [pairItem, capturingItem captured]

theorem capturingItem_captures {captured : List (Located Expr)} {span : Span}
    (values : ∀ e ∈ captured, ∃ h outcome,
      valueOf (scopeOf .wide (capturingItems ⟨.list captured, span⟩)) e h = .ok outcome) :
    (capturingItem ⟨.list captured, span⟩).Captures
      (scopeOf .wide (capturingItems ⟨.list captured, span⟩)) protoField
      (upvaluesField ⟨.list captured, span⟩) ⟨0⟩ captured :=
  ⟨rfl, Or.inl rfl, rfl, rfl, ⟨"p", rfl, rfl⟩, rfl, values⟩

def mixedUpvalues : List (Located Expr) :=
  [⟨.int 1, ⟨57, 58⟩⟩,
    ⟨.list [⟨.int 2, ⟨61, 62⟩⟩, ⟨.list [⟨.int 3, ⟨65, 66⟩⟩], ⟨64, 67⟩⟩], ⟨60, 68⟩⟩]

theorem mixed_upvalues_are_kept :
    ∃ closure loaded,
      lower .wide (capturingItems ⟨.list mixedUpvalues, ⟨56, 69⟩⟩) = .ok loaded ∧
      (scopeOf .wide (capturingItems ⟨.list mixedUpvalues, ⟨56, 69⟩⟩)).Holds loaded.heap closure
        ⟨0⟩ mixedUpvalues := by
  have values : ∀ e ∈ mixedUpvalues, ∃ h outcome,
      valueOf (scopeOf .wide (capturingItems ⟨.list mixedUpvalues, ⟨56, 69⟩⟩)) e h =
        .ok outcome := by
    intro e member
    rcases List.mem_cons.mp member with rfl | member
    · exact ⟨.empty, _, rfl⟩
    · rw [List.mem_singleton.mp member]
      exact ⟨.empty, _, rfl⟩
  have mixed : ¬ OnlyLists mixedUpvalues := by
    rintro ⟨_, lists⟩
    obtain ⟨items, list⟩ := lists _ List.mem_cons_self
    cases list
  have loads : (lower .wide (capturingItems ⟨.list mixedUpvalues, ⟨56, 69⟩⟩)).toOption.any
      fun _ => true := by
    decide +kernel
  obtain ⟨loaded, lowered, _⟩ := exists_ok_of_any loads
  obtain ⟨closure, _, _, kept⟩ := captured_upvalues_are_kept_unless_all_are_lists .wide
    (capturingItems ⟨.list mixedUpvalues, ⟨56, 69⟩⟩) rfl _ (by simp [capturingItems]) protoField
    _ ⟨0⟩ mixedUpvalues (capturingItem_captures values)
  exact ⟨closure, loaded, lowered, ((kept mixed).2 loaded lowered).1⟩

def listUpvalues : List (Located Expr) :=
  [⟨.list [⟨.int 1, ⟨58, 59⟩⟩], ⟨57, 60⟩⟩]

def listsText : String :=
  "proto p \x7bupvals: [[1, 2]]\x7d closure c \x7bproto: p, upvals: [[1]]\x7d"

/-- Every expression comes to a value, and still the item is not defined. -/
theorem a_list_alone_is_not_kept :
    (capturingItem ⟨.list listUpvalues, ⟨56, 61⟩⟩).Captures
        (scopeOf .wide (capturingItems ⟨.list listUpvalues, ⟨56, 61⟩⟩)) protoField
        (upvaluesField ⟨.list listUpvalues, ⟨56, 61⟩⟩) ⟨0⟩ listUpvalues ∧
      (∀ closure h, define (scopeOf .wide (capturingItems ⟨.list listUpvalues, ⟨56, 61⟩⟩))
        (capturingItem ⟨.list listUpvalues, ⟨56, 61⟩⟩) (some (.closure closure none)) h =
          .error ⟨.unknownField "closure" "upvals", ⟨48, 54⟩⟩) ∧
      problemsOf (load .wide listsText) = [(.unknownField "closure" "upvals", ⟨48, 54⟩)] := by
  have captures := @capturingItem_captures listUpvalues ⟨56, 61⟩ <| by
    intro e member
    rw [List.mem_singleton.mp member]
    exact ⟨.empty, _, rfl⟩
  have lists : OnlyLists listUpvalues := by
    refine ⟨List.cons_ne_nil _ _, fun e member => ?_⟩
    rw [List.mem_singleton.mp member]
    exact ⟨_, rfl⟩
  refine ⟨captures, fun closure h => captures.undefinable closure lists h, ?_⟩
  decide +kernel

end

end StaticImage.Snapshot
