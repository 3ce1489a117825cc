import StaticImage.Proofs.Snapshot.Meaning
import StaticImage.Proofs.Snapshot.Scalars
import StaticImage.Proofs.Table.Contents

namespace StaticImage.Snapshot

open Load

variable {s : Scope} {h h' : Heap}

def Scope.Makes (s : Scope) (h : Heap) (f : Form) (v : Value) (h' : Heap) : Prop :=
  ∃ order, h.Grows order h' ∧ s.Means h' f v

theorem Scope.Known.mono {objects : List ObjectId} (known : s.Known h)
    (changes : h.Changes objects h') : s.Known h' :=
  fun name d declared o member => changes.has o (known name d declared o member)

theorem Scope.Known.named (known : s.Known h) {f : Form} {cls : ClassId}
    (named : s.NamesClass f (some cls)) : h.Has (.classObject cls) := by
  rcases named with ⟨_, ⟨⟩⟩ | ⟨name, id, _, declared, same⟩
  cases same
  exact known name _ declared _ List.mem_cons_self

theorem grows_retains {order : List ObjectId} (grows : h.Grows order h') : Retains h h' :=
  .of_changes grows.changes (by simp)

theorem knows_of_mem {values : List Value} (knows : ∀ v ∈ values, h.Knows v) (r : ObjectId)
    (member : r ∈ values.filterMap Value.object?) : h.Has r := by
  obtain ⟨v, inside, refers⟩ := List.mem_filterMap.mp member
  exact knows v inside r refers

theorem newList_ok {items : List Value} {v : Value} (run : newList items h = .ok (v, h'))
    (knows : ∀ item ∈ items, h.Knows item) :
    ∃ id, v = .plain (.list id) ∧ h'.list? id = some items ∧ h.Grows [.list id] h' := by
  have made : (v, h') = (.plain (.list (h.addList items).1), (h.addList items).2) :=
    (modifyGet_ok run).symm
  obtain ⟨rfl, rfl⟩ := Prod.mk.inj made
  have present : (h.addList items).2.list? (h.addList items).1 = some items :=
    Array.getElem?_push_size
  refine ⟨_, rfl, present, .more [] h _ _ .same (h.allocates_list items) rfl ?_ ?_⟩
  · rw [Heap.references_list present]
    exact knows_of_mem knows
  · rintro id i ⟨⟩

theorem newMap_ok {t : Table} {v : Value} (run : newMap t h = .ok (v, h')) (knows : t.All h.Knows) :
    ∃ id, v = .plain (.map id) ∧ h'.table? id = some t ∧ h.Grows [.map id] h' := by
  have made : (v, h') = (.plain (.map (h.addTable t).1), (h.addTable t).2) :=
    (modifyGet_ok run).symm
  obtain ⟨rfl, rfl⟩ := Prod.mk.inj made
  have present : (h.addTable t).2.table? (h.addTable t).1 = some t :=
    Array.getElem?_push_size
  have parts (v : Value) (member : v ∈ t.parts) : h.Knows v := by
    obtain ⟨e, inside, held⟩ := List.mem_flatMap.mp member
    rcases List.mem_cons.mp held with rfl | held
    · exact (knows e inside).1
    · cases List.mem_singleton.mp held
      exact (knows e inside).2
  refine ⟨_, rfl, present, .more [] h _ _ .same (h.allocates_table t) rfl ?_ ?_⟩
  · rw [Heap.references_map present]
    exact knows_of_mem parts
  · rintro id i ⟨⟩

theorem newInstance_ok {i : InstanceObject} {v : Value} (run : newInstance i h = .ok (v, h'))
    (knows : ∀ v ∈ i.data.values, h.Knows v) (alone : i.super = none ∧ i.sub = none)
    (cls : ∀ id, i.ofClass.class? = some id → h.Has (.classObject id)) :
    ∃ id, v = .plain (.instanceObject id) ∧ h'.instance? id = some i ∧
      h.Grows [.instanceObject id] h' := by
  have made : (v, h') = (.plain (.instanceObject (h.addInstance i).1), (h.addInstance i).2) :=
    (modifyGet_ok run).symm
  obtain ⟨rfl, rfl⟩ := Prod.mk.inj made
  have present : (h.addInstance i).2.instance? (h.addInstance i).1 = some i :=
    Array.getElem?_push_size
  refine ⟨_, rfl, present, .more [] h _ _ .same (h.allocates_instance i) rfl ?_ ?_⟩
  · rw [Heap.references_instance present alone]
    intro r member
    rcases List.mem_append.mp member with linked | held
    · obtain ⟨id, found, rfl⟩ := List.mem_map.mp linked
      exact cls id (Option.mem_toList.mp found)
    · exact knows_of_mem knows r held
  · rintro id i ⟨⟩ here
    cases present.symm.trans here
    exact alone

theorem construct_ok {function : Located String} {argument : Located Expr} {inner : Load Value}
    {v : Value} (run : construct s function argument inner h = .ok (v, h')) (known : s.Known h)
    (evaluates : ∀ w mid, inner h = .ok (w, mid) → s.Makes h argument.value.form w mid) :
    s.Makes h (.call function.value [argument.value.form]) v h' := by
  simp only [Scope.Makes, Scope.Means]
  generalize made : construct s function argument inner = m at run
  unfold construct at made
  split at made <;> subst made
  case h_1 name =>
    obtain ⟨n, _, read, run⟩ := bind_ok run
    obtain ⟨rfl, form⟩ := hostIntOf_ok read
    obtain ⟨rfl, rfl⟩ := pure_ok run
    rw [name]
    exact ⟨[], .same, n, form, rfl⟩
  case h_2 name =>
    obtain ⟨w, mid, evaluated, run⟩ := bind_ok run
    obtain ⟨rfl, rfl⟩ := pure_ok run
    obtain ⟨order, grows, means⟩ := evaluates w mid evaluated
    rw [name]
    exact ⟨order, grows, w, means, rfl⟩
  case h_3 name | h_4 name | h_5 name =>
    obtain ⟨n, _, read, run⟩ := bind_ok run
    obtain ⟨rfl, form⟩ := nameOf_ok read
    obtain ⟨rfl, rfl⟩ := pure_ok run
    rw [name]
    exact ⟨[], .same, n, form, rfl⟩
  case h_6 name =>
    obtain ⟨text, _, read, run⟩ := bind_ok run
    obtain ⟨rfl, form⟩ := stringOf_ok read
    cases digits : hexBytes? text.toList with
    | none =>
        simp only [digits] at run
        exact (fail_ok run).elim
    | some data =>
        simp only [digits] at run
        obtain ⟨id, rfl, present, new⟩ := newInstance_ok run (by simp [InstanceObject.bytes,
          InstanceData.values]) ⟨rfl, rfl⟩ (by simp [InstanceObject.bytes, InstanceClass.class?])
        rw [name]
        exact ⟨_, new, text, data, id, form, digits, rfl, present⟩
  case h_7 name =>
    obtain ⟨w, mid, evaluated, run⟩ := bind_ok run
    obtain ⟨order, grows, means⟩ := evaluates w mid evaluated
    cases data : w.data with
    | map wrapped =>
        simp only [data] at run
        have there : mid.Has (.map wrapped) :=
          means.knows (known.mono grows.changes) _ w _ (by simp [Value.object?, data])
        obtain ⟨id, rfl, present, new⟩ := newInstance_ok run (by
          simpa [InstanceObject.wrapMap, InstanceData.values, Heap.Knows, Value.object?,
            Value.plain] using there) ⟨rfl, rfl⟩ (by
          simp [InstanceObject.wrapMap, InstanceClass.class?])
        rw [name]
        exact ⟨_, grows.trans new, w, wrapped, id, means.mono (grows_retains new) _ w, data, rfl,
          present⟩
    | _ =>
        simp only [data] at run
        exact (mismatch_ok run).elim
  case h_8 name =>
    obtain ⟨w, mid, evaluated, run⟩ := bind_ok run
    obtain ⟨order, grows, means⟩ := evaluates w mid evaluated
    cases data : w.data with
    | list wrapped =>
        simp only [data] at run
        have there : mid.Has (.list wrapped) :=
          means.knows (known.mono grows.changes) _ w _ (by simp [Value.object?, data])
        obtain ⟨id, rfl, present, new⟩ := newInstance_ok run (by
          simpa [InstanceObject.wrapList, InstanceData.values, Heap.Knows, Value.object?,
            Value.plain] using there) ⟨rfl, rfl⟩ (by
          simp [InstanceObject.wrapList, InstanceClass.class?])
        rw [name]
        exact ⟨_, grows.trans new, w, wrapped, id, means.mono (grows_retains new) _ w, data, rfl,
          present⟩
    | _ =>
        simp only [data] at run
        exact (mismatch_ok run).elim
  case h_9 name =>
    obtain ⟨cls?, _, read, run⟩ := bind_ok run
    obtain ⟨rfl, named⟩ := classRef_ok read
    cases cls? with
    | none => exact (mismatch_ok run).elim
    | some cls =>
        have there : h.Has (.classObject cls) := known.named named
        obtain ⟨id, rfl, present, new⟩ := newInstance_ok run (by simp [InstanceData.values])
          ⟨rfl, rfl⟩ (by simpa [InstanceClass.class?] using there)
        rw [name]
        exact ⟨_, new, cls, id, named, rfl, present⟩
  case h_10 => exact (fail_ok run).elim

theorem bind_table_ok {t u : Table} {key value : Value} {span : Span}
    (run : bind t key value span h = .ok (u, h')) :
    h = h' ∧ ∃ old, t.insert key value = .ok (old, u) := by
  unfold bind at run
  cases inserted : t.insert key value with
  | error why =>
      cases why
      rw [inserted] at run
      exact (fail_ok run).elim
  | ok outcome =>
      rw [inserted] at run
      obtain ⟨rfl, same⟩ := pure_ok run
      exact ⟨same, outcome.1, rfl⟩

theorem mapKey_ok {key : Expr} {span : Span} {inner : Load Value} {k : Value}
    (run : mapKey key span inner h = .ok (k, h'))
    (evaluates : inner h = .ok (k, h') → s.Makes h key.form k h') :
    ∃ order, h.Grows order h' ∧ key.form.MeansKey (fun w => s.Means h' key.form w) k := by
  cases key with
  | ref name =>
      obtain ⟨rfl, rfl⟩ := pure_ok run
      exact ⟨[], .same, rfl⟩
  | nil => cases run
  | _ => exact evaluates run

mutual

theorem value_ok (e : Expr) (span : Span) (v : Value) (h h' : Heap) (known : s.Known h)
    (run : value s e span h = .ok (v, h')) : s.Makes h e.form v h' :=
  match e with
  | .nil | .bool _ | .string _ => by
      obtain ⟨rfl, rfl⟩ := pure_ok run
      exact ⟨[], .same, by rw [Expr.form, Scope.Means]⟩
  | .int n => by
      obtain ⟨m, _, read, run⟩ := bind_ok run
      obtain ⟨rfl, form⟩ := hostIntOf_ok read
      obtain ⟨rfl, rfl⟩ := pure_ok run
      cases form
      exact ⟨[], .same, by rw [Expr.form, Scope.Means]⟩
  | .real literal => by
      obtain ⟨rfl, r, read, rfl⟩ := realOf_ok run
      exact ⟨[], .same, by rw [Expr.form, Scope.Means]; exact ⟨r, read, rfl⟩⟩
  | .ref name => by
      obtain ⟨rfl, name', d, form, declared, means⟩ := reference_ok run
      cases form
      exact ⟨[], .same, by rw [Expr.form, Scope.Means]; exact ⟨d, declared, means⟩⟩
  | .call function [] => by
      unfold value at run
      split at run
      · exact (fail_ok run).elim
      · exact (fail_ok run).elim
  | .call function [⟨argument, at_⟩] =>
      construct_ok run known fun w mid evaluated => value_ok argument at_ w h mid known evaluated
  | .call function (_ :: _ :: _) => by
      unfold value at run
      split at run
      · exact (fail_ok run).elim
      · exact (fail_ok run).elim
  | .list items => by
      obtain ⟨vs, mid, evaluated, run⟩ := bind_ok run
      obtain ⟨order, grows, all⟩ := values_ok items vs h mid known evaluated
      have still := known.mono grows.changes
      obtain ⟨id, rfl, present, new⟩ := newList_ok run (all.knows still _ vs)
      refine ⟨order ++ [.list id], grows.trans new, ?_⟩
      rw [Expr.form, Scope.Means]
      exact ⟨id, vs, rfl, present, all.mono (grows_retains new) _ vs⟩
  | .map entries => by
      obtain ⟨t, mid, evaluated, run⟩ := bind_ok run
      obtain ⟨order, pairs, grows, each, made⟩ := bindings_ok entries .empty t h mid known evaluated
      have still := known.mono grows.changes
      have knows : t.All mid.Knows :=
        (Table.all_sized 0).insertAll pairs (each.knows still _ pairs) made
      obtain ⟨id, rfl, present, new⟩ := newMap_ok run knows
      refine ⟨order ++ [.map id], grows.trans new, ?_⟩
      rw [Expr.form, Scope.Means]
      exact ⟨id, t, pairs, rfl, present, each.mono (grows_retains new) _ pairs, made⟩

theorem values_ok (items : List (Located Expr)) (vs : List Value) (h h' : Heap) (known : s.Known h)
    (run : values s items h = .ok (vs, h')) :
    ∃ order, h.Grows order h' ∧ s.MeansAll h' (formsOf items) vs :=
  match items with
  | [] => by
      obtain ⟨rfl, rfl⟩ := pure_ok run
      exact ⟨[], .same, by rw [formsOf, Scope.MeansAll]⟩
  | ⟨e, span⟩ :: items => by
      obtain ⟨v, mid, first, run⟩ := bind_ok run
      obtain ⟨rest, _, others, run⟩ := bind_ok run
      obtain ⟨rfl, rfl⟩ := pure_ok run
      obtain ⟨order, grows, here⟩ := value_ok e span v h mid known first
      have still := known.mono grows.changes
      obtain ⟨later, further, there⟩ := values_ok items rest mid _ still others
      refine ⟨order ++ later, grows.trans further, ?_⟩
      rw [formsOf, Scope.MeansAll]
      exact ⟨v, rest, rfl, here.mono (grows_retains further) _ v, there⟩

theorem bindings_ok (entries : List (Located Expr × Located Expr)) (t u : Table) (h h' : Heap)
    (known : s.Known h) (run : bindings s t entries h = .ok (u, h')) :
    ∃ order pairs, h.Grows order h' ∧ s.MeansEach h' (entryFormsOf entries) pairs ∧
      t.insertAll pairs = .ok u :=
  match entries with
  | [] => by
      obtain ⟨rfl, rfl⟩ := pure_ok run
      exact ⟨[], [], .same, by rw [entryFormsOf, Scope.MeansEach], rfl⟩
  | (⟨key, keySpan⟩, ⟨e, span⟩) :: entries => by
      obtain ⟨k, mid, first, run⟩ := bind_ok run
      obtain ⟨v, mid', second, run⟩ := bind_ok run
      obtain ⟨next, _, bound, run⟩ := bind_ok run
      obtain ⟨rfl, old, inserted⟩ := bind_table_ok bound
      obtain ⟨order, grows, at_key⟩ := mapKey_ok first (value_ok key keySpan k h mid known)
      have still := known.mono grows.changes
      obtain ⟨more, further, here⟩ := value_ok e span v mid mid' still second
      have again := still.mono further.changes
      obtain ⟨later, rest, last, there, made⟩ := bindings_ok entries next u mid' h' again run
      refine ⟨order ++ more ++ later, (k, v) :: rest, (grows.trans further).trans last, ?_,
        (Table.insertAll_cons t u k v rest).mpr ⟨old, next, inserted, made⟩⟩
      rw [entryFormsOf, Scope.MeansEach]
      refine ⟨k, v, rest, rfl, ?_, here.mono (grows_retains last) _ v, there⟩
      exact at_key.mono fun w => Scope.Means.mono (grows_retains (further.trans last)) key.form w

end

end StaticImage.Snapshot
