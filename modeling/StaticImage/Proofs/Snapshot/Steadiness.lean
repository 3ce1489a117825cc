import StaticImage.Proofs.Snapshot.Describing
import StaticImage.Proofs.Snapshot.Nesting

/-!
What goes wrong in an item does not depend on the heap. From any two heaps a computation of the loader
comes to values of one type, or fails with one problem at a span of what it reads.
-/

namespace StaticImage.Snapshot

open Load

namespace Load

variable {α β : Type}

/-- From whatever heaps they start, both computations come to related values, or both fail with one
problem at one of some places. -/
def Alike (place : Span → Prop) (rel : α → α → Prop) (m m' : Load α) : Prop :=
  ∀ h h' : Heap,
    (∃ a after b after', m h = .ok (a, after) ∧ m' h' = .ok (b, after') ∧ rel a b) ∨
      ∃ p, m h = .error p ∧ m' h' = .error p ∧ place p.span

def Steady (place : Span → Prop) (m : Load α) : Prop :=
  Alike place (fun _ _ => True) m m

def Succeeds (m : Load α) : Prop :=
  ∀ h, ∃ outcome, m h = .ok outcome

variable {place further : Span → Prop} {rel : α → α → Prop} {rel' : β → β → Prop} {m m' : Load α}

theorem Alike.mono {weaker : α → α → Prop} (alike : Alike place rel m m')
    (places : ∀ span, place span → further span) (imp : ∀ a b, rel a b → weaker a b) :
    Alike further weaker m m' := by
  intro h h'
  rcases alike h h' with ⟨a, after, b, after', run, run', related⟩ | ⟨p, run, run', there⟩
  · exact Or.inl ⟨a, after, b, after', run, run', imp a b related⟩
  · exact Or.inr ⟨p, run, run', places p.span there⟩

theorem Alike.bind {next next' : α → Load β} (first : Alike place rel m m')
    (rest : ∀ a b, rel a b → Alike place rel' (next a) (next' b)) :
    Alike place rel' (m >>= next) (m' >>= next') := by
  intro h h'
  change (∃ a after b after', (m h >>= fun p => next p.1 p.2) = .ok (a, after) ∧
      (m' h' >>= fun p => next' p.1 p.2) = .ok (b, after') ∧ rel' a b) ∨
    ∃ p, (m h >>= fun p => next p.1 p.2) = .error p ∧
      (m' h' >>= fun p => next' p.1 p.2) = .error p ∧ place p.span
  rcases first h h' with ⟨a, after, b, after', run, run', related⟩ | ⟨p, run, run', there⟩
  · rw [run, run']
    exact rest a b related after after'
  · rw [run, run']
    exact Or.inr ⟨p, rfl, rfl, there⟩

theorem alike_pure {a b : α} (related : rel a b) :
    Alike place rel (pure a : Load α) (pure b) :=
  fun h h' => Or.inl ⟨a, h, b, h', rfl, rfl, related⟩

theorem alike_fail {p : Problem} {span : Span} (there : place span) :
    Alike place rel (fail p span) (fail p span) :=
  fun _ _ => Or.inr ⟨⟨p, span⟩, rfl, rfl, there⟩

theorem alike_modifyGet {f g : Heap → α × Heap} (related : ∀ h h', rel (f h).1 (g h').1) :
    Alike place rel (modifyGet f : Load α) (modifyGet g) :=
  fun h h' => Or.inl ⟨(f h).1, (f h).2, (g h').1, (g h').2, rfl, rfl, related h h'⟩

theorem Alike.next {next : α → Load β} (first : Alike place Eq m m)
    (rest : ∀ a, Alike place rel' (next a) (next a)) :
    Alike place rel' (m >>= next) (m >>= next) :=
  first.bind fun a _ same => same ▸ rest a

theorem Alike.then_modify {f : α → Heap → Heap} (first : Alike place rel m m) :
    Steady place (m >>= fun a => (modify (f a) : Load Unit)) :=
  first.bind fun _ _ _ => alike_modifyGet fun _ _ => trivial

theorem Alike.mapM {f : α → Load β} {xs : List α}
    (each : ∀ x ∈ xs, Alike place Eq (f x) (f x)) : Alike place Eq (xs.mapM f) (xs.mapM f) := by
  induction xs with
  | nil => exact alike_pure rfl
  | cons x xs ih =>
      rw [List.mapM_cons]
      refine (each x List.mem_cons_self).next fun y => ?_
      refine (ih fun x' member => each x' (List.mem_cons_of_mem x member)).next fun ys => ?_
      exact alike_pure rfl

theorem Steady.forM {f : α → Load Unit} {xs : List α}
    (each : ∀ x ∈ xs, Steady place (f x)) : Steady place (xs.forM f) := by
  induction xs with
  | nil => exact alike_pure trivial
  | cons x xs ih =>
      exact Alike.bind (each x List.mem_cons_self) fun _ _ _ =>
        ih fun x' member => each x' (List.mem_cons_of_mem x member)

theorem Steady.succeeds_iff (steady : Steady place m) (h : Heap) :
    (∃ outcome, m h = .ok outcome) ↔ Succeeds m := by
  refine ⟨?_, fun succeeds => succeeds h⟩
  rintro ⟨outcome, run⟩ h'
  rcases steady h h' with ⟨_, _, b, after', _, run', _⟩ | ⟨p, failed, _, _⟩
  · exact ⟨_, run'⟩
  · rw [run] at failed
    cases failed

theorem Steady.place_of_error (steady : Steady place m) {h : Heap} {p : Located Problem}
    (failed : m h = .error p) : place p.span := by
  rcases steady h h with ⟨_, _, _, _, run, _, _⟩ | ⟨q, run, _, there⟩
  · rw [failed] at run
    cases run
  · rw [failed] at run
    cases run
    exact there

end Load

inductive Bears (e : Located Expr) : Span → Prop where
  | whole : Bears e e.span
  | part {inner : Located Expr} {span : Span} (occurs : Occurs inner e)
      (member : span ∈ inner.value.partSpans) : Bears e span

theorem Bears.deeper {part outer : Located Expr} {span : Span} (bears : Bears part span)
    (member : part ∈ outer.value.parts) : Bears outer span := by
  cases bears with
  | whole => exact .part .here (span_mem_partSpans member)
  | part occurs inside => exact .part (.deeper member occurs) inside

theorem Bears.of_field {i : Item} {f : Field} {span : Span} (bears : Bears f.value span)
    (member : f ∈ i.fields) : i.Bears span := by
  cases bears with
  | whole =>
      exact .part (List.mem_append_right _ (List.mem_flatMap.mpr ⟨f, member, by simp⟩))
  | part occurs inside => exact .value member occurs inside

theorem bears_fieldName {i : Item} {f : Field} (member : f ∈ i.fields) : i.Bears f.name.span :=
  .part (List.mem_append_right _ (List.mem_flatMap.mpr ⟨f, member, List.mem_cons_self⟩))

theorem Load.Alike.within {α : Type} {rel : α → α → Prop} {m m' : Load α}
    {part outer : Located Expr} (alike : Alike (Bears part) rel m m')
    (member : part ∈ outer.value.parts) : Alike (Bears outer) rel m m' :=
  alike.mono (fun _ bears => bears.deeper member) fun _ _ related => related

def OfOneType (v w : Value) : Prop :=
  v.data.typeName = w.data.typeName

section

variable {s : Scope} {e : Located Expr}

theorem intOf_alike : Alike (Bears e) Eq (intOf e) (intOf e) := by
  unfold intOf
  split
  · exact alike_pure rfl
  · exact alike_fail .whole

theorem byteOf_alike : Alike (Bears e) Eq (byteOf e) (byteOf e) := by
  refine intOf_alike.next fun n => ?_
  split
  · exact alike_pure rfl
  · exact alike_fail .whole

theorem wordOf_alike : Alike (Bears e) Eq (wordOf e) (wordOf e) := by
  refine intOf_alike.next fun n => ?_
  split
  · exact alike_pure rfl
  · exact alike_fail .whole

theorem hostIntOf_alike : Alike (Bears e) Eq (hostIntOf s e) (hostIntOf s e) := by
  refine intOf_alike.next fun n => ?_
  split
  · exact alike_pure rfl
  · exact alike_fail .whole

theorem stringOf_alike : Alike (Bears e) Eq (stringOf e) (stringOf e) := by
  unfold stringOf
  split
  · exact alike_pure rfl
  · exact alike_fail .whole

theorem nameOf_alike : Alike (Bears e) Eq (nameOf e) (nameOf e) := by
  unfold nameOf
  split
  · exact alike_pure rfl
  · exact alike_pure rfl
  · exact alike_fail .whole

theorem listOf_alike : Alike (Bears e) (fun a b => a = b ∧ e.value = .list a) (listOf e) (listOf e) := by
  unfold listOf
  split
  · rename_i items list
    exact alike_pure ⟨rfl, list⟩
  · exact alike_fail .whole

theorem resolve_alike : Alike (Bears e) Eq (resolve s e) (resolve s e) := by
  unfold resolve
  split
  · split
    · exact alike_pure rfl
    · exact alike_fail .whole
  · exact alike_fail .whole

theorem protoRef_alike : Alike (Bears e) Eq (protoRef s e) (protoRef s e) := by
  refine resolve_alike.next fun found => ?_
  split
  · exact alike_pure rfl
  · exact alike_fail .whole

theorem classRef_alike : Alike (Bears e) Eq (classRef s e) (classRef s e) := by
  unfold classRef
  split
  · exact alike_pure rfl
  · refine resolve_alike.next fun found => ?_
    split
    · exact alike_pure rfl
    · exact alike_fail .whole

theorem reference_alike : Alike (Bears e) Eq (reference s e) (reference s e) := by
  refine resolve_alike.next fun (name, d) => ?_
  dsimp only
  split
  · exact alike_pure rfl
  · exact alike_fail .whole

theorem realOf_alike (literal : String) {span : Span} {place : Span → Prop} (there : place span) :
    Alike place Eq (realOf s literal span) (realOf s literal span) := by
  unfold realOf
  split
  · exact alike_pure rfl
  · exact alike_fail there

theorem upvalue_alike : Alike (Bears e) Eq (upvalue e) (upvalue e) := by
  refine listOf_alike.bind fun items others same => ?_
  obtain ⟨rfl, list⟩ := same
  have member {part : Located Expr} (inside : part ∈ items) : part ∈ e.value.parts := by
    rw [list]
    exact inside
  split
  · rename_i flag index
    have number := byteOf_alike.within (member (List.mem_cons_of_mem flag List.mem_cons_self))
    have pair (inStack : Bool) : Alike (Bears e) Eq
        (byteOf index >>= fun x => (pure ⟨inStack, x⟩ : Load Upvalue))
        (byteOf index >>= fun x => pure ⟨inStack, x⟩) :=
      number.next fun _ => alike_pure rfl
    dsimp only
    split
    · exact (alike_pure rfl).next pair
    · exact (alike_pure rfl).next pair
    · exact (alike_pure rfl).next pair
    · exact (alike_fail (Bears.whole.deeper (member List.mem_cons_self))).next pair
  · exact alike_fail .whole

end

section

variable {s : Scope} {place : Span → Prop} {inner : Load Value}

theorem typeName_eq_map_iff {d : Datum} : d.typeName = "map" ↔ ∃ id, d = .map id := by
  cases d <;> simp [Datum.typeName]

theorem typeName_eq_list_iff {d : Datum} : d.typeName = "list" ↔ ∃ id, d = .list id := by
  cases d <;> simp [Datum.typeName]

theorem maps_or_none {v w : Value} (same : OfOneType v w) :
    (∃ id id', v.data = .map id ∧ w.data = .map id') ∨
      (∀ id, v.data ≠ .map id) ∧ ∀ id, w.data ≠ .map id := by
  by_cases named : v.data.typeName = "map"
  · obtain ⟨id, left⟩ := typeName_eq_map_iff.mp named
    obtain ⟨id', right⟩ := typeName_eq_map_iff.mp (same.symm.trans named)
    exact Or.inl ⟨id, id', left, right⟩
  · exact Or.inr ⟨fun id left => named (typeName_eq_map_iff.mpr ⟨id, left⟩),
      fun id right => named (same.trans (typeName_eq_map_iff.mpr ⟨id, right⟩))⟩

theorem lists_or_none {v w : Value} (same : OfOneType v w) :
    (∃ id id', v.data = .list id ∧ w.data = .list id') ∨
      (∀ id, v.data ≠ .list id) ∧ ∀ id, w.data ≠ .list id := by
  by_cases named : v.data.typeName = "list"
  · obtain ⟨id, left⟩ := typeName_eq_list_iff.mp named
    obtain ⟨id', right⟩ := typeName_eq_list_iff.mp (same.symm.trans named)
    exact Or.inl ⟨id, id', left, right⟩
  · exact Or.inr ⟨fun id left => named (typeName_eq_list_iff.mpr ⟨id, left⟩),
      fun id right => named (same.trans (typeName_eq_list_iff.mpr ⟨id, right⟩))⟩

theorem isNil_iff {v : Value} : v.isNil = true ↔ v.data.typeName = "nil" := by
  rw [Value.isNil, decide_eq_true_iff]
  cases v.data <;> simp [Datum.typeName]

theorem newList_alike {items others : List Value} :
    Alike place OfOneType (newList items) (newList others) :=
  alike_modifyGet fun _ _ => rfl

theorem newMap_alike {t u : Table} : Alike place OfOneType (newMap t) (newMap u) :=
  alike_modifyGet fun _ _ => rfl

theorem newInstance_alike {i j : InstanceObject} :
    Alike place OfOneType (newInstance i) (newInstance j) :=
  alike_modifyGet fun _ _ => rfl

theorem bind_alike {t u : Table} {key key' v w : Value} {span : Span} (same : OfOneType key key')
    (there : place span) :
    Alike place (fun _ _ => True) (bind t key v span) (bind u key' w span) := by
  have nils : key.isNil = key'.isNil := by
    rw [Bool.eq_iff_iff, isNil_iff, isNil_iff, same]
  unfold Snapshot.bind
  cases nil : key.isNil with
  | true =>
      have failed (t : Table) (k v : Value) (nil : k.isNil = true) :
          t.insert k v = .error .nilKey := by
        rw [Table.insert, if_pos nil]
      rw [failed t key v nil, failed u key' w (nils ▸ nil)]
      exact alike_fail there
  | false =>
      have made (t : Table) (k v : Value) (named : k.isNil = false) :
          ∃ old t', t.insert k v = .ok (old, t') := by
        rw [Table.insert, if_neg (Bool.eq_false_iff.mp named)]
        split
        · split <;> exact ⟨_, _, rfl⟩
        · exact ⟨_, _, rfl⟩
      obtain ⟨_, t', inserted⟩ := made t key v nil
      obtain ⟨_, u', inserted'⟩ := made u key' w (nils ▸ nil)
      rw [inserted, inserted']
      exact alike_pure trivial

theorem mapKey_alike (key : Expr) {span : Span} (there : place span)
    (alike : Alike place OfOneType inner inner) :
    Alike place OfOneType (mapKey key span inner) (mapKey key span inner) := by
  unfold mapKey
  split
  · exact alike_pure rfl
  · exact alike_fail there
  · exact alike

theorem construct_alike {function : Located String} {argument e : Located Expr}
    (called : e.value = .call function [argument])
    (alike : Alike (Bears argument) OfOneType inner inner) :
    Alike (Bears e) OfOneType (construct s function argument inner)
      (construct s function argument inner) := by
  have member : argument ∈ e.value.parts := by
    rw [called]
    exact List.mem_singleton_self argument
  have here : Bears e argument.span := Bears.whole.deeper member
  unfold construct
  split
  · exact (hostIntOf_alike.within member).next fun n => alike_pure rfl
  · exact (alike.within member).bind fun v w same => alike_pure same
  · exact (nameOf_alike.within member).next fun name => alike_pure rfl
  · exact (nameOf_alike.within member).next fun name => alike_pure rfl
  · exact (nameOf_alike.within member).next fun name => alike_pure rfl
  · refine (stringOf_alike.within member).next fun content => ?_
    split
    · exact newInstance_alike
    · exact alike_fail here
  · refine (alike.within member).bind fun v w same => ?_
    rcases maps_or_none same with ⟨id, other, left, right⟩ | ⟨left, right⟩
    · simp only [left, right]
      exact newInstance_alike
    · split
      · exact (left _ ‹_›).elim
      · exact alike_fail here
  · refine (alike.within member).bind fun v w same => ?_
    rcases lists_or_none same with ⟨id, other, left, right⟩ | ⟨left, right⟩
    · simp only [left, right]
      exact newInstance_alike
    · split
      · exact (left _ ‹_›).elim
      · exact alike_fail here
  · refine (classRef_alike.within member).next fun id? => ?_
    split
    · exact newInstance_alike
    · exact alike_fail here
  · refine alike_fail (.part .here ?_)
    rw [called]
    exact List.mem_cons_self

end

mutual

/-- An expression has values of one type in all heaps, or one problem. -/
theorem value_alike (s : Scope) (e : Expr) (span : Span) :
    Alike (Bears ⟨e, span⟩) OfOneType (value s e span) (value s e span) :=
  match e with
  | .nil | .bool _ | .string _ => by
      unfold value
      exact alike_pure rfl
  | .int n => by
      unfold value
      exact hostIntOf_alike.next fun n => alike_pure rfl
  | .real literal => by
      unfold value
      exact (realOf_alike literal .whole).mono (fun _ bears => bears) fun _ _ same => same ▸ rfl
  | .ref name => by
      unfold value
      exact reference_alike.mono (fun _ bears => bears) fun _ _ same => same ▸ rfl
  | .call function [⟨e, at_⟩] => by
      unfold value
      exact construct_alike rfl (value_alike s e at_)
  | .call function [] => by
      unfold value
      split
      · exact alike_fail .whole
      · exact alike_fail (.part .here List.mem_cons_self)
  | .call function (_ :: _ :: _) => by
      unfold value
      split
      · exact alike_fail .whole
      · exact alike_fail (.part .here List.mem_cons_self)
  | .list items => by
      unfold value
      exact Alike.bind (values_steady s items fun _ member => member) fun _ _ _ => newList_alike
  | .map entries => by
      unfold value
      refine Alike.bind (bindings_steady s .empty .empty entries fun e member => ?_)
        fun _ _ _ => newMap_alike
      exact ⟨List.mem_flatMap.mpr ⟨e, member, by simp⟩, List.mem_flatMap.mpr ⟨e, member, by simp⟩⟩

theorem values_steady (s : Scope) {outer : Located Expr} (items : List (Located Expr))
    (inside : ∀ part ∈ items, part ∈ outer.value.parts) :
    Steady (Bears outer) (values s items) :=
  match items with
  | [] => by
      unfold values
      exact alike_pure trivial
  | ⟨e, span⟩ :: items => by
      unfold values
      have here := inside ⟨e, span⟩ List.mem_cons_self
      have there (part : Located Expr) (member : part ∈ items) :=
        inside part (List.mem_cons_of_mem _ member)
      refine (value_alike s e span).within here |>.bind fun _ _ _ => ?_
      exact Alike.bind (values_steady s items there) fun _ _ _ => alike_pure trivial

theorem bindings_steady (s : Scope) (t u : Table) {outer : Located Expr}
    (entries : List (Located Expr × Located Expr))
    (inside : ∀ e ∈ entries, e.1 ∈ outer.value.parts ∧ e.2 ∈ outer.value.parts) :
    Alike (Bears outer) (fun _ _ => True) (bindings s t entries) (bindings s u entries) :=
  match entries with
  | [] => by
      unfold bindings
      exact alike_pure trivial
  | (⟨key, keySpan⟩, ⟨e, span⟩) :: entries => by
      unfold bindings
      obtain ⟨keys, here⟩ := inside _ List.mem_cons_self
      have there (e : Located Expr × Located Expr) (member : e ∈ entries) :=
        inside e (List.mem_cons_of_mem _ member)
      have at_key : Bears outer keySpan := Bears.whole.deeper keys
      refine (mapKey_alike key at_key ((value_alike s key keySpan).within keys)).bind
        fun k k' same => ?_
      refine ((value_alike s e span).within here).bind fun v v' _ => ?_
      exact (bind_alike same at_key).bind fun t' u' _ => bindings_steady s t' u' entries there

end

section

variable {s : Scope} {f : Field} {effect : Load Unit}

theorem valuesOf_steady (e : Located Expr) : Steady (Bears e) (valuesOf s e) := by
  refine listOf_alike.bind fun items others same => ?_
  obtain ⟨rfl, list⟩ := same
  refine values_steady s items fun part member => ?_
  rw [list]
  exact member

theorem optionalMap_steady (e : Located Expr) : Steady (Bears e) (optionalMap s e) := by
  unfold optionalMap
  split
  · exact alike_pure trivial
  · refine (value_alike s e.value e.span).bind fun v w same => ?_
    rcases maps_or_none same with ⟨id, other, left, right⟩ | ⟨left, right⟩
    · simp only [left, right]
      exact alike_pure trivial
    · split
      · exact (left _ ‹_›).elim
      · exact alike_fail .whole
  · exact alike_fail .whole

theorem elements_steady {α : Type} {read : Located Expr → Load α} {e : Located Expr}
    {f : List α → Heap → Heap} (each : ∀ part, Alike (Bears part) Eq (read part) (read part)) :
    Steady (Bears e) (listOf e >>= fun items => items.mapM read >>= fun xs =>
      (modify (f xs) : Load Unit)) := by
  refine listOf_alike.bind fun items others same => ?_
  obtain ⟨rfl, list⟩ := same
  refine (Alike.mapM fun part member => (each part).within ?_).then_modify
  rw [list]
  exact member

theorem protoField_steady {id : ProtoId} (found : protoField? s id f = some effect) :
    Steady (Bears f.value) effect := by
  unfold protoField? at found
  dsimp only at found
  split at found
  case h_1 | h_2 => cases found; exact stringOf_alike.then_modify
  case h_3 | h_4 | h_5 => cases found; exact byteOf_alike.then_modify
  case h_6 => cases found; exact elements_steady fun _ => upvalue_alike
  case h_7 => cases found; exact elements_steady fun _ => protoRef_alike
  case h_8 => cases found; exact classRef_alike.then_modify
  case h_9 => cases found; exact Alike.then_modify (valuesOf_steady f.value)
  case h_10 => cases found; exact elements_steady fun _ => wordOf_alike
  case h_11 => cases found

theorem closureField_steady {id : ClosureId} {own : Option ProtoId}
    (found : closureField? s id own f = some effect) : Steady (Bears f.value) effect := by
  unfold closureField? at found
  dsimp only at found
  split at found
  · cases found
    exact protoRef_alike.then_modify
  · split at found
    · cases found
      exact Alike.then_modify (valuesOf_steady f.value)
    · obtain ⟨id, _, found⟩ := Option.bind_eq_some_iff.mp found
      exact protoField_steady found

theorem classField_steady {id : ClassId} (found : classField? s id f = some effect) :
    Steady (Bears f.value) effect := by
  unfold classField? at found
  dsimp only at found
  split at found
  case h_1 => cases found; exact stringOf_alike.then_modify
  case h_2 => cases found; exact wordOf_alike.then_modify
  case h_3 => cases found; exact classRef_alike.then_modify
  case h_4 => cases found; exact Alike.then_modify (optionalMap_steady f.value)
  case h_5 => cases found

theorem moduleField_steady {id : ModuleId} (found : moduleField? s id f = some effect) :
    Steady (Bears f.value) effect := by
  unfold moduleField? at found
  dsimp only at found
  split at found
  · cases found
    exact stringOf_alike.then_modify
  · cases found
    exact Alike.then_modify (optionalMap_steady f.value)
  · cases found

theorem builtinsField_steady (found : builtinsField? f = some effect) :
    Steady (Bears f.value) effect := by
  unfold builtinsField? at found
  split at found
  · cases found
    exact elements_steady fun _ => nameOf_alike
  · cases found

/-- A field that is known goes well or wrong by its value alone. -/
theorem field_steady {what : Option Declared} (found : field? s f what = some effect) :
    Steady (Bears f.value) effect := by
  unfold field? at found
  split at found
  · exact protoField_steady found
  · exact closureField_steady found
  · exact classField_steady found
  · exact moduleField_steady found
  · exact builtinsField_steady found

end

/-- No field is given twice, and the value of each is one that the field of the item can have. -/
structure Item.Definable (i : Item) (s : Scope) (what : Option Declared) : Prop where
  distinct : (i.fields.map fun f => f.name.value).Nodup
  fits : ∀ f ∈ i.fields, ∃ effect, Snapshot.field? s f what = some effect ∧ Succeeds effect

theorem duplicate?_eq_some {seen : List String} {fields : List Field} {f : Field}
    (twice : duplicate? seen fields = some f) :
    f ∈ fields ∧ (f.name.value ∈ seen ∨ ¬ (fields.map fun f => f.name.value).Nodup) := by
  induction fields generalizing seen with
  | nil => cases twice
  | cons g fields ih =>
      rw [duplicate?] at twice
      split at twice
      · rename_i again
        cases twice
        exact ⟨List.mem_cons_self, Or.inl again⟩
      · obtain ⟨member, why⟩ := ih twice
        refine ⟨List.mem_cons_of_mem g member, ?_⟩
        rw [List.map_cons, List.nodup_cons, not_and_or, not_not]
        rcases why with seen | twice
        · rcases List.mem_cons.mp seen with same | seen
          · rw [← same]
            exact Or.inr (Or.inl (List.mem_map_of_mem member))
          · exact Or.inl seen
        · exact Or.inr (Or.inr twice)

theorem duplicate?_eq_none_iff {fields : List Field} :
    duplicate? [] fields = none ↔ (fields.map fun f => f.name.value).Nodup := by
  refine ⟨fun none => (duplicate?_eq_none [] fields none).1, fun distinct => ?_⟩
  cases twice : duplicate? [] fields with
  | none => rfl
  | some f =>
      rcases (duplicate?_eq_some twice).2 with seen | again
      · cases seen
      · exact (again distinct).elim

theorem Load.Steady.forM_succeeds {α : Type} {place : Span → Prop} {effect : α → Load Unit}
    {xs : List α} (each : ∀ x ∈ xs, Steady place (effect x)) :
    Succeeds (xs.forM effect) ↔ ∀ x ∈ xs, Succeeds (effect x) := by
  induction xs with
  | nil => exact ⟨fun _ => nofun, fun _ h => ⟨((), h), rfl⟩⟩
  | cons x xs ih =>
      have later := ih fun y member => each y (List.mem_cons_of_mem x member)
      rw [List.forall_mem_cons, ← later]
      constructor
      · intro all
        obtain ⟨⟨⟨⟩, _⟩, run⟩ := all Heap.empty
        obtain ⟨⟨⟩, mid, first, others⟩ := bind_ok run
        have here := each x List.mem_cons_self
        have there : Steady place (xs.forM effect) :=
          Steady.forM fun y member => each y (List.mem_cons_of_mem x member)
        exact ⟨(here.succeeds_iff _).mp ⟨_, first⟩, (there.succeeds_iff mid).mp ⟨_, others⟩⟩
      · rintro ⟨first, others⟩ h
        obtain ⟨⟨⟨⟩, mid⟩, run⟩ := first h
        obtain ⟨outcome, run'⟩ := others mid
        refine ⟨outcome, ?_⟩
        change (effect x h >>= fun p => xs.forM effect p.2) = .ok outcome
        rw [run]
        exact run'

section

variable {s : Scope} {i : Item} {what : Option Declared}

theorem fields_steady (f : Field) (member : f ∈ i.fields) :
    Steady i.Bears (match field? s f what with
      | some effect => effect
      | none => fail (.unknownField i.kind.value f.name.value) f.name.span) := by
  cases found : field? s f what with
  | none =>
      exact alike_fail (bears_fieldName member)
  | some effect =>
      exact (field_steady found).mono (fun _ bears => bears.of_field member) fun _ _ _ => trivial

/-- Whether an item can be defined, and what is wrong with it if not, is the same in all heaps. -/
theorem define_steady : Steady i.Bears (define s i what) := by
  unfold define
  cases twice : duplicate? [] i.fields with
  | some f =>
      exact alike_fail (bears_fieldName (duplicate?_eq_some twice).1)
  | none => exact Steady.forM fields_steady

theorem define_succeeds_iff : Succeeds (define s i what) ↔ i.Definable s what := by
  unfold define
  cases twice : duplicate? [] i.fields with
  | some f =>
      refine ⟨fun succeeds => ?_, fun definable => ?_⟩
      · obtain ⟨outcome, run⟩ := succeeds Heap.empty
        cases run
      · rw [duplicate?_eq_none_iff.mpr definable.distinct] at twice
        cases twice
  | none =>
      refine (Steady.forM_succeeds fields_steady).trans ?_
      refine ⟨fun all => ⟨duplicate?_eq_none_iff.mp twice, fun f member => ?_⟩,
        fun definable f member => ?_⟩
      · have succeeds := all f member
        cases found : field? s f what with
        | none =>
            simp only [found] at succeeds
            obtain ⟨outcome, run⟩ := succeeds Heap.empty
            cases run
        | some effect =>
            simp only [found] at succeeds
            exact ⟨effect, rfl, succeeds⟩
      · obtain ⟨effect, found, succeeds⟩ := definable.fits f member
        simp only [found]
        exact succeeds

end

end StaticImage.Snapshot
