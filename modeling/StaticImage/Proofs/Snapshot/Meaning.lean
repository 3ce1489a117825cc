import StaticImage.Proofs.Heap.Allocation
import StaticImage.Proofs.Snapshot.Form

/-!
What expressions mean. A form means a value of a heap by way of the names in scope and of the lists,
maps and instances that the value leads to; it goes on meaning it while these stay as they are.
-/

namespace StaticImage.Snapshot

def Declared.objects : Declared → List ObjectId
  | proto id => [.proto id]
  | closure id own => .closure id :: own.toList.map .proto
  | classItem id => [.classObject id]
  | moduleItem id => [.moduleObject id]

def Scope.Known (s : Scope) (h : Heap) : Prop :=
  ∀ name d, s.names.lookup name = some d → ∀ o ∈ d.objects, h.Has o

/-- A bare name is a string where it is a key; any other form means there what it means. -/
def Form.MeansKey (key : Form) (inner : Value → Prop) (k : Value) : Prop :=
  match key with
  | .ref name => k = .plain (.string name)
  | _ => inner k

def Scope.Constructs (s : Scope) (h : Heap) (function : String) (argument : Form)
    (inner : Value → Prop) (v : Value) : Prop :=
  match function with
  | "var" => ∃ n, argument = .int n ∧ v = .plain (.slot n)
  | "static" => ∃ w, inner w ∧ v = w.withStatic
  | "native" => ∃ name, argument.name? = some name ∧ v = .plain (.nativeFunction name)
  | "ntvclos" => ∃ name, argument.name? = some name ∧ v = .plain (.nativeClosure name)
  | "ptr" => ∃ name, argument.name? = some name ∧ v = .plain (.nativePointer name)
  | "bytes" => ∃ text data id, argument = .string text ∧ hexBytes? text.toList = some data ∧
      v = .plain (.instanceObject id) ∧ h.instance? id = some (.bytes data)
  | "map_instance" => ∃ w wrapped id, inner w ∧ w.data = .map wrapped ∧
      v = .plain (.instanceObject id) ∧ h.instance? id = some (.wrapMap wrapped)
  | "list_instance" => ∃ w wrapped id, inner w ∧ w.data = .list wrapped ∧
      v = .plain (.instanceObject id) ∧ h.instance? id = some (.wrapList wrapped)
  | "instance" => ∃ cls id, s.NamesClass argument (some cls) ∧
      v = .plain (.instanceObject id) ∧
      h.instance? id = some ⟨.user cls, .members [], none, none⟩
  | _ => False

mutual

def Scope.Means (s : Scope) (h : Heap) : Form → Value → Prop
  | .nil, v => v = .plain .nil
  | .bool b, v => v = .plain (.bool b)
  | .int n, v => v = .plain (.int n)
  | .real literal, v => ∃ r, s.host.format.read? literal = some r ∧ v = .plain (.real r)
  | .string content, v => v = .plain (.string content)
  | .ref name, v => ∃ d, s.names.lookup name = some d ∧ d.value? = some v
  | .call function [argument], v =>
    s.Constructs h function argument (fun w => s.Means h argument w) v
  | .call _ _, _ => False
  | .list items, v => ∃ id values, v = .plain (.list id) ∧ h.list? id = some values ∧
      s.MeansAll h items values
  | .map entries, v => ∃ id t bindings, v = .plain (.map id) ∧ h.table? id = some t ∧
      s.MeansEach h entries bindings ∧ Table.ofList bindings = .ok t

def Scope.MeansAll (s : Scope) (h : Heap) : List Form → List Value → Prop
  | [], values => values = []
  | f :: fs, values => ∃ v rest, values = v :: rest ∧ s.Means h f v ∧ s.MeansAll h fs rest

def Scope.MeansEach (s : Scope) (h : Heap) : List (Form × Form) → List (Value × Value) → Prop
  | [], bindings => bindings = []
  | (key, f) :: entries, bindings => ∃ k v rest, bindings = (k, v) :: rest ∧
      key.MeansKey (fun w => s.Means h key w) k ∧ s.Means h f v ∧ s.MeansEach h entries rest

end

def Retains (h h' : Heap) : Prop :=
  ∀ o, o.isAggregate → h.Has o → Heap.SameAt h h' o

namespace Retains

variable {h h' : Heap}

theorem of_changes {objects : List ObjectId} (changes : h.Changes objects h')
    (others : ∀ o ∈ objects, o.isAggregate = false) : Retains h h' := by
  intro o kind has
  refine changes.same o has fun member => ?_
  rw [others o member] at kind
  cases kind

variable (retains : Retains h h')

include retains

theorem list {id : ListId} {items : List Value} (present : h.list? id = some items) :
    h'.list? id = some items := by
  have same := retains (.list id) rfl ((h.has_list_iff id).mpr ⟨items, present⟩)
  exact Eq.trans same present

theorem table {id : MapId} {t : Table} (present : h.table? id = some t) :
    h'.table? id = some t := by
  have same := retains (.map id) rfl ((h.has_map_iff id).mpr ⟨t, present⟩)
  exact Eq.trans same present

theorem instance_ {id : InstanceId} {i : InstanceObject} (present : h.instance? id = some i) :
    h'.instance? id = some i := by
  have same := retains (.instanceObject id) rfl ((h.has_instance_iff id).mpr ⟨i, present⟩)
  exact Eq.trans same present

end Retains

variable {s : Scope} {h h' : Heap}

theorem Scope.Constructs.mono {function : String} {argument : Form} {inner outer : Value → Prop}
    {v : Value} (constructs : s.Constructs h function argument inner v)
    (retains : Retains h h') (weaker : ∀ w, inner w → outer w) :
    s.Constructs h' function argument outer v := by
  unfold Constructs at constructs ⊢
  split at constructs
  case h_2 =>
    obtain ⟨w, means, rfl⟩ := constructs
    exact ⟨w, weaker w means, rfl⟩
  case h_6 =>
    obtain ⟨text, data, id, form, read, rfl, present⟩ := constructs
    exact ⟨text, data, id, form, read, rfl, retains.instance_ present⟩
  case h_7 | h_8 =>
    obtain ⟨w, wrapped, id, means, data, rfl, present⟩ := constructs
    exact ⟨w, wrapped, id, weaker w means, data, rfl, retains.instance_ present⟩
  case h_9 =>
    obtain ⟨cls, id, named, rfl, present⟩ := constructs
    exact ⟨cls, id, named, rfl, retains.instance_ present⟩
  all_goals exact constructs

theorem Form.MeansKey.mono {key : Form} {inner outer : Value → Prop} {k : Value}
    (means : key.MeansKey inner k) (weaker : ∀ w, inner w → outer w) : key.MeansKey outer k := by
  cases key with
  | ref name => exact means
  | _ => exact weaker k means

mutual

/-- What a form means does not depend on the objects of items. -/
theorem Scope.Means.mono (retains : Retains h h') (f : Form) (v : Value) (means : s.Means h f v) :
    s.Means h' f v :=
  match f with
  | .nil => means
  | .bool _ => means
  | .int _ => means
  | .real _ => means
  | .string _ => means
  | .ref _ => means
  | .call _ [] => means
  | .call function [argument] => by
      unfold Means at means ⊢
      exact means.mono retains fun w => Scope.Means.mono retains argument w
  | .call _ (_ :: _ :: _) => means
  | .list items => by
      unfold Means at means ⊢
      obtain ⟨id, values, rfl, present, all⟩ := means
      exact ⟨id, values, rfl, retains.list present, Scope.MeansAll.mono retains items values all⟩
  | .map entries => by
      unfold Means at means ⊢
      obtain ⟨id, t, bindings, rfl, present, each, made⟩ := means
      exact ⟨id, t, bindings, rfl, retains.table present,
        Scope.MeansEach.mono retains entries bindings each, made⟩

theorem Scope.MeansAll.mono (retains : Retains h h') (fs : List Form) (values : List Value)
    (means : s.MeansAll h fs values) : s.MeansAll h' fs values :=
  match fs with
  | [] => means
  | f :: fs => by
      unfold MeansAll at means ⊢
      obtain ⟨v, rest, rfl, first, others⟩ := means
      exact ⟨v, rest, rfl, Scope.Means.mono retains f v first,
        Scope.MeansAll.mono retains fs rest others⟩

theorem Scope.MeansEach.mono (retains : Retains h h') (entries : List (Form × Form))
    (bindings : List (Value × Value)) (means : s.MeansEach h entries bindings) :
    s.MeansEach h' entries bindings :=
  match entries with
  | [] => means
  | (key, f) :: entries => by
      unfold MeansEach at means ⊢
      obtain ⟨k, v, rest, rfl, at_key, first, others⟩ := means
      exact ⟨k, v, rest, rfl, at_key.mono fun w => Scope.Means.mono retains key w,
        Scope.Means.mono retains f v first, Scope.MeansEach.mono retains entries rest others⟩

end

section

variable (known : s.Known h)

include known

theorem Scope.Known.value {name : String} {d : Declared} {v : Value}
    (declared : s.names.lookup name = some d) (means : d.value? = some v) : h.Knows v := by
  intro o refers
  refine known name d declared o ?_
  cases d <;> cases means <;> cases refers <;> simp [Declared.objects]

theorem Scope.Means.knows (f : Form) (v : Value) (means : s.Means h f v) : h.Knows v :=
  match f with
  | .nil | .bool _ | .int _ | .string _ => by
      unfold Means at means
      subst means
      rintro o ⟨⟩
  | .real _ => by
      unfold Means at means
      obtain ⟨r, _, rfl⟩ := means
      rintro o ⟨⟩
  | .ref _ => by
      unfold Means at means
      obtain ⟨d, declared, value⟩ := means
      exact known.value declared value
  | .call _ [] => by
      unfold Means at means
      exact means.elim
  | .call function [argument] => by
      unfold Means Scope.Constructs at means
      split at means
      case h_1 =>
        obtain ⟨n, _, rfl⟩ := means
        rintro o ⟨⟩
      case h_2 =>
        obtain ⟨w, inner, rfl⟩ := means
        exact Scope.Means.knows argument w inner
      case h_3 | h_4 | h_5 =>
        obtain ⟨name, _, rfl⟩ := means
        rintro o ⟨⟩
      case h_6 =>
        obtain ⟨text, data, id, _, _, rfl, present⟩ := means
        rintro o ⟨⟩
        exact (h.has_instance_iff id).mpr ⟨_, present⟩
      case h_7 | h_8 =>
        obtain ⟨w, wrapped, id, _, _, rfl, present⟩ := means
        rintro o ⟨⟩
        exact (h.has_instance_iff id).mpr ⟨_, present⟩
      case h_9 =>
        obtain ⟨cls, id, _, rfl, present⟩ := means
        rintro o ⟨⟩
        exact (h.has_instance_iff id).mpr ⟨_, present⟩
      case h_10 => exact means.elim
  | .call _ (_ :: _ :: _) => by
      unfold Means at means
      exact means.elim
  | .list items => by
      unfold Means at means
      obtain ⟨id, values, rfl, present, _⟩ := means
      rintro o ⟨⟩
      exact (h.has_list_iff id).mpr ⟨values, present⟩
  | .map entries => by
      unfold Means at means
      obtain ⟨id, t, _, rfl, present, _⟩ := means
      rintro o ⟨⟩
      exact (h.has_map_iff id).mpr ⟨t, present⟩

theorem Scope.MeansAll.knows (fs : List Form) (values : List Value)
    (means : s.MeansAll h fs values) : ∀ v ∈ values, h.Knows v := by
  induction fs generalizing values with
  | nil =>
      unfold MeansAll at means
      subst means
      intro v member
      cases member
  | cons f fs ih =>
      unfold MeansAll at means
      obtain ⟨first, rest, rfl, here, others⟩ := means
      intro v member
      rcases List.mem_cons.mp member with rfl | later
      · exact here.knows known f v
      · exact ih rest others v later

theorem Form.MeansKey.knows {key : Form} {k : Value}
    (means : key.MeansKey (fun w => s.Means h key w) k) : h.Knows k := by
  cases key with
  | ref name =>
      cases means
      rintro o ⟨⟩
  | _ => exact Scope.Means.knows known _ k means

theorem Scope.MeansEach.knows (entries : List (Form × Form)) (bindings : List (Value × Value))
    (means : s.MeansEach h entries bindings) : ∀ e ∈ bindings, h.Knows e.1 ∧ h.Knows e.2 := by
  induction entries generalizing bindings with
  | nil =>
      unfold MeansEach at means
      subst means
      intro e member
      cases member
  | cons entry entries ih =>
      obtain ⟨key, f⟩ := entry
      unfold MeansEach at means
      obtain ⟨k, v, rest, rfl, at_key, here, others⟩ := means
      intro e member
      rcases List.mem_cons.mp member with rfl | later
      · exact ⟨at_key.knows known, here.knows known f v⟩
      · exact ih rest others e later

end

end StaticImage.Snapshot
