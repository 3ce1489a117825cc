import StaticImage.Proofs.Snapshot.Evaluation
import StaticImage.Proofs.Table.LastWriting

namespace StaticImage.Snapshot

/-- A value with all that it leads to through lists, maps and instances; a flag tells whether it is
static. -/
inductive Content where
  | leaf (v : Value)
  | bytes (isStatic : Bool) (data : List UInt8)
  | object (isStatic : Bool) (cls : ClassId)
  | list (isStatic : Bool) (items : List Content)
  | map (isStatic : Bool) (entries : List (Value × Content))
  | wrapped (isStatic : Bool) (inner : Content)

namespace Content

def withStatic : Content → Content
  | leaf v => leaf v.withStatic
  | bytes _ data => bytes true data
  | object _ cls => object true cls
  | list _ items => list true items
  | map _ entries => map true entries
  | wrapped _ inner => wrapped true inner

def leaf? : Content → Option Value
  | leaf v => some v
  | _ => none

end Content

def wrapping? : Datum → Option InstanceObject
  | .map id => some (.wrapMap id)
  | .list id => some (.wrapList id)
  | _ => none

mutual

/-- The value has this content in the heap, where `holds` tells what tables have which bindings. -/
def Content.Unfolds (holds : Table → List (Value × Value) → Prop) (h : Heap) :
    Content → Value → Prop
  | .leaf v, w => w = v ∧ ∀ o, v.object? = some o → o.isAggregate = false
  | .bytes isStatic data, w => ∃ id, w = ⟨.instanceObject id, isStatic⟩ ∧
      h.instance? id = some (.bytes data)
  | .object isStatic cls, w => ∃ id, w = ⟨.instanceObject id, isStatic⟩ ∧
      h.instance? id = some ⟨.user cls, .members [], none, none⟩
  | .list isStatic items, w => ∃ id values, w = ⟨.list id, isStatic⟩ ∧ h.list? id = some values ∧
      unfoldsAll holds h items values
  | .map isStatic entries, w => ∃ id t bindings, w = ⟨.map id, isStatic⟩ ∧
      h.table? id = some t ∧ unfoldsEach holds h entries bindings ∧ holds t bindings
  | .wrapped isStatic inner, w => ∃ id d i, w = ⟨.instanceObject id, isStatic⟩ ∧
      h.instance? id = some i ∧ wrapping? d = some i ∧ inner.Unfolds holds h (.plain d)

def unfoldsAll (holds : Table → List (Value × Value) → Prop) (h : Heap) :
    List Content → List Value → Prop
  | [], values => values = []
  | c :: items, values => ∃ v rest, values = v :: rest ∧ c.Unfolds holds h v ∧
      unfoldsAll holds h items rest

def unfoldsEach (holds : Table → List (Value × Value) → Prop) (h : Heap) :
    List (Value × Content) → List (Value × Value) → Prop
  | [], bindings => bindings = []
  | (key, c) :: entries, bindings => ∃ v rest, bindings = (key, v) :: rest ∧ c.Unfolds holds h v ∧
      unfoldsEach holds h entries rest

end

namespace Form

def keyContent? (key : Form) (inner : Option Content) : Option Value :=
  match key with
  | .ref name => some (.plain (.string name))
  | _ => inner.bind Content.leaf?

def constructed? (item? : String → Option Value) (function : String) (argument : Form)
    (inner : Option Content) : Option Content :=
  match function, argument with
  | "var", .int n => some (.leaf (.plain (.slot n)))
  | "static", _ => inner.map Content.withStatic
  | "native", _ => argument.name?.map fun name => .leaf (.plain (.nativeFunction name))
  | "ntvclos", _ => argument.name?.map fun name => .leaf (.plain (.nativeClosure name))
  | "ptr", _ => argument.name?.map fun name => .leaf (.plain (.nativePointer name))
  | "bytes", .string text => (hexBytes? text.toList).map (.bytes false)
  | "map_instance", _ => inner.bind fun
    | .map _ entries => some (.wrapped false (.map false entries))
    | _ => none
  | "list_instance", _ => inner.bind fun
    | .list _ items => some (.wrapped false (.list false items))
    | _ => none
  | "instance", .ref name => ((item? name).bind Value.class?).map (.object false)
  | _, _ => none

end Form

mutual

/-- What a form says if names stand for certain items. -/
def Form.denotes? (host : Host) (item? : String → Option Value) : Form → Option Content
  | .nil => some (.leaf (.plain .nil))
  | .bool b => some (.leaf (.plain (.bool b)))
  | .int n => some (.leaf (.plain (.int n)))
  | .real literal => (host.format.read? literal).map fun r => .leaf (.plain (.real r))
  | .string content => some (.leaf (.plain (.string content)))
  | .ref name => (item? name).map .leaf
  | .call function [argument] =>
    argument.constructed? item? function (argument.denotes? host item?)
  | .call _ _ => none
  | .list items => (denoted? host item? items).map (.list false)
  | .map entries => (writings? host item? entries).map fun written =>
      .map false (Table.lastWritten written)

def denoted? (host : Host) (item? : String → Option Value) : List Form → Option (List Content)
  | [] => some []
  | f :: items => do
    let c ← f.denotes? host item?
    let rest ← denoted? host item? items
    some (c :: rest)

def writings? (host : Host) (item? : String → Option Value) :
    List (Form × Form) → Option (List (Value × Content))
  | [] => some []
  | (key, f) :: entries => do
    let k ← key.keyContent? (key.denotes? host item?)
    let c ← f.denotes? host item?
    let rest ← writings? host item? entries
    some ((k, c) :: rest)

end

/-- A name, a scalar or `var(n)`, possibly static. -/
def Form.isKey : Form → Bool
  | .ref _ | .string _ | .int _ | .real _ | .bool _ => true
  | .call "var" [.int _] => true
  | .call "static" [argument] => argument.isKey
  | _ => false

mutual

def Form.plainKeys : Form → Bool
  | .call _ arguments => plainKeysAll arguments
  | .list items => plainKeysAll items
  | .map entries => plainKeysEach entries
  | _ => true

def plainKeysAll : List Form → Bool
  | [] => true
  | f :: fs => f.plainKeys && plainKeysAll fs

def plainKeysEach : List (Form × Form) → Bool
  | [] => true
  | (key, f) :: entries => key.isKey && f.plainKeys && plainKeysEach entries

end

section

variable {holds : Table → List (Value × Value) → Prop} {h : Heap} {c : Content} {v w : Value}

theorem Content.Unfolds.withStatic (unfolds : c.Unfolds holds h v) :
    c.withStatic.Unfolds holds h v.withStatic := by
  cases c with
  | leaf u =>
      unfold Content.Unfolds at unfolds
      obtain ⟨rfl, leaf⟩ := unfolds
      exact ⟨rfl, leaf⟩
  | bytes | object =>
      unfold Content.Unfolds at unfolds
      obtain ⟨id, rfl, present⟩ := unfolds
      exact ⟨id, rfl, present⟩
  | list =>
      unfold Content.Unfolds at unfolds
      obtain ⟨id, values, rfl, present, all⟩ := unfolds
      exact ⟨id, values, rfl, present, all⟩
  | map =>
      unfold Content.Unfolds at unfolds
      obtain ⟨id, t, bindings, rfl, present, each⟩ := unfolds
      exact ⟨id, t, bindings, rfl, present, each⟩
  | wrapped =>
      unfold Content.Unfolds at unfolds
      obtain ⟨id, d, i, rfl, present, around⟩ := unfolds
      exact ⟨id, d, i, rfl, present, around⟩

theorem Content.Unfolds.of_map (unfolds : c.Unfolds holds h w) {id : MapId}
    (data : w.data = .map id) :
    ∃ isStatic entries, c = .map isStatic entries ∧
      (Content.map false entries).Unfolds holds h (.plain (.map id)) := by
  cases c with
  | leaf u =>
      unfold Content.Unfolds at unfolds
      obtain ⟨rfl, leaf⟩ := unfolds
      cases leaf (.map id) (by rw [Value.object?, data])
  | map isStatic entries =>
      unfold Content.Unfolds at unfolds
      obtain ⟨id, t, bindings, rfl, present, each⟩ := unfolds
      cases data
      exact ⟨isStatic, entries, rfl, id, t, bindings, rfl, present, each⟩
  | bytes | object =>
      unfold Content.Unfolds at unfolds
      obtain ⟨id, rfl, _⟩ := unfolds
      cases data
  | list =>
      unfold Content.Unfolds at unfolds
      obtain ⟨id, values, rfl, _⟩ := unfolds
      cases data
  | wrapped =>
      unfold Content.Unfolds at unfolds
      obtain ⟨id, d, i, rfl, _⟩ := unfolds
      cases data

theorem Content.Unfolds.of_list (unfolds : c.Unfolds holds h w) {id : ListId}
    (data : w.data = .list id) :
    ∃ isStatic items, c = .list isStatic items ∧
      (Content.list false items).Unfolds holds h (.plain (.list id)) := by
  cases c with
  | leaf u =>
      unfold Content.Unfolds at unfolds
      obtain ⟨rfl, leaf⟩ := unfolds
      cases leaf (.list id) (by rw [Value.object?, data])
  | list isStatic items =>
      unfold Content.Unfolds at unfolds
      obtain ⟨id, values, rfl, present, all⟩ := unfolds
      cases data
      exact ⟨isStatic, items, rfl, id, values, rfl, present, all⟩
  | bytes | object =>
      unfold Content.Unfolds at unfolds
      obtain ⟨id, rfl, _⟩ := unfolds
      cases data
  | map =>
      unfold Content.Unfolds at unfolds
      obtain ⟨id, t, bindings, rfl, _⟩ := unfolds
      cases data
  | wrapped =>
      unfold Content.Unfolds at unfolds
      obtain ⟨id, d, i, rfl, _⟩ := unfolds
      cases data

theorem unfoldsEach_put {entries : List (Value × Content)} {bindings : List (Value × Value)}
    (key : Value) (each : unfoldsEach holds h entries bindings) (unfolds : c.Unfolds holds h v) :
    unfoldsEach holds h (Table.put entries key c) (Table.put bindings key v) := by
  induction entries generalizing bindings with
  | nil =>
      unfold unfoldsEach at each
      subst each
      exact ⟨v, [], rfl, unfolds, rfl⟩
  | cons entry entries ih =>
      obtain ⟨k, d⟩ := entry
      unfold unfoldsEach at each
      obtain ⟨u, rest, rfl, here, there⟩ := each
      simp only [Table.put]
      split
      · exact ⟨v, rest, rfl, unfolds, there⟩
      · exact ⟨u, _, rfl, here, ih there⟩

theorem unfoldsEach_putAll {done written : List (Value × Content)}
    {bound bindings : List (Value × Value)} (before : unfoldsEach holds h done bound)
    (each : unfoldsEach holds h written bindings) :
    unfoldsEach holds h (Table.putAll done written) (Table.putAll bound bindings) := by
  induction written generalizing bindings done bound with
  | nil =>
      unfold unfoldsEach at each
      subst each
      exact before
  | cons entry written ih =>
      obtain ⟨key, c⟩ := entry
      unfold unfoldsEach at each
      obtain ⟨v, rest, rfl, here, there⟩ := each
      rw [Table.putAll, Table.putAll]
      exact ih (unfoldsEach_put key before here) there

end

def Scope.Resolves (s : Scope) (item? : String → Option Value) : Prop :=
  ∀ name d v, s.names.lookup name = some d → d.value? = some v → item? name = some v

section

variable {holds : Table → List (Value × Value) → Prop} {s : Scope} {h : Heap}
  {item? : String → Option Value} (resolves : s.Resolves item?)

include resolves

theorem Scope.Means.leaf {key : Form} {v : Value} (means : s.Means h key v)
    (plain : key.isKey = true) : key.denotes? s.host item? = some (.leaf v) := by
  fun_induction Form.isKey key generalizing v with
  | case1 name =>
      unfold Scope.Means at means
      obtain ⟨d, declared, value⟩ := means
      rw [Form.denotes?, resolves name d v declared value]
      rfl
  | case2 | case3 | case5 =>
      unfold Scope.Means at means
      rw [means, Form.denotes?]
  | case4 literal =>
      unfold Scope.Means at means
      obtain ⟨r, read, rfl⟩ := means
      rw [Form.denotes?, read]
      rfl
  | case6 n =>
      unfold Scope.Means at means
      obtain ⟨m, ⟨⟩, rfl⟩ := means
      rfl
  | case7 argument ih =>
      unfold Scope.Means at means
      obtain ⟨w, inner, rfl⟩ := means
      rw [Form.denotes?, Form.constructed?, ih inner plain]
      rfl
  | case8 => cases plain

theorem Form.MeansKey.denotes {key : Form} {k : Value}
    (means : key.MeansKey (fun w => s.Means h key w) k) (plain : key.isKey = true) :
    key.keyContent? (key.denotes? s.host item?) = some k := by
  cases key with
  | ref name => exact congrArg some (Eq.symm means)
  | _ =>
      simp only [keyContent?, Scope.Means.leaf resolves means plain]
      rfl

theorem Scope.Constructs.denotes {function : String} {argument : Form} {v : Value}
    (constructs : s.Constructs h function argument (fun w => s.Means h argument w) v)
    (evaluates : ∀ w, s.Means h argument w →
      ∃ c, argument.denotes? s.host item? = some c ∧ c.Unfolds holds h w) :
    ∃ c, argument.constructed? item? function (argument.denotes? s.host item?) = some c ∧
      c.Unfolds holds h v := by
  unfold Scope.Constructs at constructs
  split at constructs
  case h_1 =>
    obtain ⟨n, rfl, rfl⟩ := constructs
    exact ⟨_, rfl, rfl, nofun⟩
  case h_2 =>
    obtain ⟨w, inner, rfl⟩ := constructs
    obtain ⟨c, said, unfolds⟩ := evaluates w inner
    rw [said]
    exact ⟨_, rfl, unfolds.withStatic⟩
  case h_3 | h_4 | h_5 =>
    obtain ⟨name, called, rfl⟩ := constructs
    rw [Form.constructed?, called]
    exact ⟨_, rfl, rfl, nofun⟩
  case h_6 =>
    obtain ⟨text, data, id, rfl, read, rfl, present⟩ := constructs
    rw [Form.constructed?, read]
    exact ⟨_, rfl, id, rfl, present⟩
  case h_7 =>
    obtain ⟨w, wrapped, id, inner, data, rfl, present⟩ := constructs
    obtain ⟨c, said, unfolds⟩ := evaluates w inner
    obtain ⟨isStatic, entries, rfl, plain⟩ := unfolds.of_map data
    rw [said]
    exact ⟨_, rfl, id, _, _, rfl, present, rfl, plain⟩
  case h_8 =>
    obtain ⟨w, wrapped, id, inner, data, rfl, present⟩ := constructs
    obtain ⟨c, said, unfolds⟩ := evaluates w inner
    obtain ⟨isStatic, items, rfl, plain⟩ := unfolds.of_list data
    rw [said]
    exact ⟨_, rfl, id, _, _, rfl, present, rfl, plain⟩
  case h_9 =>
    obtain ⟨cls, id, named, rfl, present⟩ := constructs
    rcases named with ⟨_, ⟨⟩⟩ | ⟨name, other, rfl, declared, ⟨⟩⟩
    rw [Form.constructed?, resolves name _ _ declared rfl]
    exact ⟨_, rfl, id, rfl, present⟩
  case h_10 => exact constructs.elim

end

section

variable {holds : Table → List (Value × Value) → Prop} {s : Scope} {h : Heap}
  {item? : String → Option Value}

mutual

/-- A value that a form means, if keys in it are plain, unfolds to what the form says. -/
theorem Scope.Means.denotes
    (made : ∀ t written, Table.ofList written = .ok t → holds t (Table.lastWritten written))
    (resolves : s.Resolves item?) (f : Form) (v : Value) (means : s.Means h f v)
    (plain : f.plainKeys = true) :
    ∃ c, f.denotes? s.host item? = some c ∧ c.Unfolds holds h v :=
  match f with
  | .nil | .bool _ | .int _ | .string _ => by
      unfold Scope.Means at means
      subst means
      exact ⟨_, rfl, rfl, nofun⟩
  | .real _ => by
      unfold Scope.Means at means
      obtain ⟨r, read, rfl⟩ := means
      rw [Form.denotes?, read]
      exact ⟨_, rfl, rfl, nofun⟩
  | .ref name => by
      unfold Scope.Means at means
      obtain ⟨d, declared, value⟩ := means
      rw [Form.denotes?, resolves name d v declared value]
      refine ⟨_, rfl, rfl, fun o refers => ?_⟩
      cases d <;> cases value <;> cases refers <;> rfl
  | .call _ [] => by
      unfold Scope.Means at means
      exact means.elim
  | .call function [argument] => by
      unfold Scope.Means at means
      refine means.denotes resolves fun w inner => ?_
      exact Scope.Means.denotes made resolves argument w inner (Bool.and_eq_true_iff.mp plain).1
  | .call _ (_ :: _ :: _) => by
      unfold Scope.Means at means
      exact means.elim
  | .list items => by
      unfold Scope.Means at means
      obtain ⟨id, values, rfl, present, all⟩ := means
      obtain ⟨cs, said, unfolds⟩ := Scope.MeansAll.denote made resolves items values all plain
      rw [Form.denotes?, said]
      exact ⟨_, rfl, id, values, rfl, present, unfolds⟩
  | .map entries => by
      unfold Scope.Means at means
      obtain ⟨id, t, bindings, rfl, present, each, filled⟩ := means
      obtain ⟨written, said, unfolds⟩ :=
        Scope.MeansEach.writings made resolves entries bindings each plain
      have start : unfoldsEach holds h [] [] := rfl
      have entries := unfoldsEach_putAll start unfolds
      rw [Form.denotes?, said]
      exact ⟨_, rfl, id, t, _, rfl, present, entries, made t bindings filled⟩

theorem Scope.MeansAll.denote
    (made : ∀ t written, Table.ofList written = .ok t → holds t (Table.lastWritten written))
    (resolves : s.Resolves item?) (fs : List Form) (values : List Value)
    (means : s.MeansAll h fs values) (plain : plainKeysAll fs = true) :
    ∃ cs, denoted? s.host item? fs = some cs ∧ unfoldsAll holds h cs values :=
  match fs with
  | [] => ⟨[], rfl, means⟩
  | f :: fs => by
      unfold Scope.MeansAll at means
      obtain ⟨v, rest, rfl, first, others⟩ := means
      obtain ⟨here, there⟩ := Bool.and_eq_true_iff.mp plain
      obtain ⟨c, said, unfolds⟩ := Scope.Means.denotes made resolves f v first here
      obtain ⟨cs, others_said, all⟩ := Scope.MeansAll.denote made resolves fs rest others there
      rw [denoted?, said, others_said]
      exact ⟨_, rfl, v, rest, rfl, unfolds, all⟩

theorem Scope.MeansEach.writings
    (made : ∀ t written, Table.ofList written = .ok t → holds t (Table.lastWritten written))
    (resolves : s.Resolves item?) (entries : List (Form × Form)) (bindings : List (Value × Value))
    (means : s.MeansEach h entries bindings) (plain : plainKeysEach entries = true) :
    ∃ written, writings? s.host item? entries = some written ∧
      unfoldsEach holds h written bindings :=
  match entries with
  | [] => ⟨[], rfl, means⟩
  | (key, f) :: entries => by
      unfold Scope.MeansEach at means
      obtain ⟨k, v, rest, rfl, at_key, first, others⟩ := means
      obtain ⟨both, there⟩ := Bool.and_eq_true_iff.mp plain
      obtain ⟨keys, here⟩ := Bool.and_eq_true_iff.mp both
      obtain ⟨c, said, unfolds⟩ := Scope.Means.denotes made resolves f v first here
      obtain ⟨written, others_said, each⟩ :=
        Scope.MeansEach.writings made resolves entries rest others there
      rw [writings?, at_key.denotes resolves keys, said, others_said]
      exact ⟨_, rfl, v, rest, rfl, unfolds, each⟩

end

end

example : Form.denotes? .wide (fun _ => none) (.map [(.ref "a", .int 1), (.string "a", .int 2)]) =
    some (.map false [(.plain (.string "a"), .leaf (.plain (.int 2)))]) :=
  rfl

end StaticImage.Snapshot
