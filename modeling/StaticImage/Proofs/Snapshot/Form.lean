import StaticImage.Snapshot.Loading

namespace StaticImage.Snapshot

inductive Form where
  | nil
  | bool (b : Bool)
  | int (n : Int)
  | real (literal : String)
  | string (content : String)
  | ref (name : String)
  | call (function : String) (arguments : List Form)
  | list (items : List Form)
  | map (entries : List (Form × Form))

mutual

def Expr.form : Expr → Form
  | .nil => .nil
  | .bool b => .bool b
  | .int n => .int n
  | .real literal => .real literal
  | .string content => .string content
  | .ref name => .ref name
  | .call function arguments => .call function.value (formsOf arguments)
  | .list items => .list (formsOf items)
  | .map entries => .map (entryFormsOf entries)

def formsOf : List (Located Expr) → List Form
  | [] => []
  | ⟨e, _⟩ :: items => e.form :: formsOf items

def entryFormsOf : List (Located Expr × Located Expr) → List (Form × Form)
  | [] => []
  | (⟨key, _⟩, ⟨e, _⟩) :: entries => (key.form, e.form) :: entryFormsOf entries

end

theorem formsOf_eq_map (items : List (Located Expr)) :
    formsOf items = items.map fun e => e.value.form := by
  induction items with
  | nil => rfl
  | cons e items ih =>
      obtain ⟨e, span⟩ := e
      rw [formsOf, ih, List.map_cons]

theorem entryFormsOf_eq_map (entries : List (Located Expr × Located Expr)) :
    entryFormsOf entries = entries.map fun e => (e.1.value.form, e.2.value.form) := by
  induction entries with
  | nil => rfl
  | cons e entries ih =>
      obtain ⟨⟨key, _⟩, ⟨e, _⟩⟩ := e
      rw [entryFormsOf, ih, List.map_cons]

mutual

def Form.beq : Form → Form → Bool
  | .nil, .nil => true
  | .bool b, .bool c => b == c
  | .int n, .int m => n == m
  | .real literal, .real other => literal == other
  | .string content, .string other => content == other
  | .ref name, .ref other => name == other
  | .call function arguments, .call other others =>
    function == other && formsBeq arguments others
  | .list items, .list others => formsBeq items others
  | .map entries, .map others => entriesBeq entries others
  | _, _ => false

def formsBeq : List Form → List Form → Bool
  | [], [] => true
  | f :: fs, g :: gs => f.beq g && formsBeq fs gs
  | _, _ => false

def entriesBeq : List (Form × Form) → List (Form × Form) → Bool
  | [], [] => true
  | (key, f) :: es, (other, g) :: gs => key.beq other && f.beq g && entriesBeq es gs
  | _, _ => false

end

mutual

theorem Form.beq_iff (f g : Form) : f.beq g = true ↔ f = g :=
  match f with
  | .nil | .bool _ | .int _ | .real _ | .string _ | .ref _ => by cases g <;> simp [Form.beq]
  | .call function arguments => by
      cases g <;> simp [Form.beq, formsBeq_iff arguments]
  | .list items => by cases g <;> simp [Form.beq, formsBeq_iff items]
  | .map entries => by cases g <;> simp [Form.beq, entriesBeq_iff entries]

theorem formsBeq_iff (fs gs : List Form) : formsBeq fs gs = true ↔ fs = gs :=
  match fs with
  | [] => by cases gs <;> simp [formsBeq]
  | f :: fs => by cases gs <;> simp [formsBeq, Form.beq_iff f, formsBeq_iff fs]

theorem entriesBeq_iff (es gs : List (Form × Form)) : entriesBeq es gs = true ↔ es = gs :=
  match es with
  | [] => by cases gs <;> simp [entriesBeq]
  | (key, f) :: es => by
      cases gs with
      | nil => simp [entriesBeq]
      | cons entry gs =>
          simp [entriesBeq, Form.beq_iff key, Form.beq_iff f, entriesBeq_iff es, Prod.ext_iff]

end

instance : DecidableEq Form := fun f g => decidable_of_iff _ (f.beq_iff g)

abbrev Given := String → Option Form

def Item.given (i : Item) : List (String × Form) :=
  i.fields.map fun f => (f.name.value, f.value.value.form)

/-- The same item but for places and the order of fields. -/
structure Item.SameAs (i j : Item) : Prop where
  kind : i.kind.value = j.kind.value
  name : i.name.map Located.value = j.name.map Located.value
  given : i.given.Perm j.given

instance (i j : Item) : Decidable (i.SameAs j) :=
  decidable_of_iff (i.kind.value = j.kind.value ∧
      i.name.map Located.value = j.name.map Located.value ∧ i.given.Perm j.given) <|
    ⟨fun ⟨kind, name, given⟩ => ⟨kind, name, given⟩, fun ⟨kind, name, given⟩ => ⟨kind, name, given⟩⟩

def Form.name? : Form → Option String
  | .string content => some content
  | .ref name => some name
  | _ => none

/-- Whether the upvalues of a closure are captured values. -/
def Form.isCaptured : Form → Bool
  | .list [] => true
  | .list items => items.any fun
    | .list _ => false
    | _ => true
  | _ => true

def Scope.NamesProto (s : Scope) (f : Form) (id : ProtoId) : Prop :=
  ∃ name, f = .ref name ∧ s.names.lookup name = some (.proto id)

def Scope.NamesClass (s : Scope) (f : Form) (id? : Option ClassId) : Prop :=
  (f = .nil ∧ id? = none) ∨
    ∃ name id, f = .ref name ∧ s.names.lookup name = some (.classItem id) ∧ id? = some id

def Form.IsUpvalue (f : Form) (u : Upvalue) : Prop :=
  ∃ flag, f = .list [flag, .int u.index.toNat] ∧
    (flag = .bool u.inStack ∨ flag = .int u.inStack.toNat)

theorem areCaptured_eq (e : Expr) : areCaptured e = e.form.isCaptured := by
  cases e with
  | list items =>
      cases items with
      | nil => rfl
      | cons first rest =>
          simp only [areCaptured, Expr.form, formsOf_eq_map, List.map_cons, Form.isCaptured,
            List.any_cons, List.any_map]
          congr 1
          · obtain ⟨e, span⟩ := first
            cases e <;> rfl
          · congr 1
            funext e
            obtain ⟨e, span⟩ := e
            cases e <;> rfl
  | _ => rfl

end StaticImage.Snapshot
