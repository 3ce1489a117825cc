import StaticImage.Proofs.Snapshot.Evaluation

namespace StaticImage.Snapshot

open Load

/-- What a field is given as, or what it is by default. -/
def Given.get (given : Given) (field : String) (default : Form) : Form :=
  (given field).getD default

def Given.with (given : Given) (f : Field) : Given := fun field =>
  if field = f.name.value then some f.value.value.form else given field

def Form.IsWord (f : Form) (i : Instruction) : Prop :=
  f = .int i.word.toNat

structure ProtoFits (s : Scope) (h : Heap) (shown : String) (given : Given) (p : Prototype) :
    Prop where
  name : given.get "name" (.string shown) = .string p.name
  source : given.get "source" (.string "") = .string p.source
  nstack : given.get "nstack" (.int 0) = .int p.nstack.toNat
  argc : given.get "argc" (.int 0) = .int p.argc.toNat
  varg : given.get "varg" (.int 0) = .int p.varg.toNat
  upvalues : ∃ items, given.get "upvals" (.list []) = .list items ∧
    List.Forall₂ Form.IsUpvalue items p.upvalues
  protos : ∃ items, given.get "protos" (.list []) = .list items ∧
    List.Forall₂ s.NamesProto items p.protos
  owner : s.NamesClass (given.get "class" .nil) p.owner
  consts : ∃ items, given.get "consts" (.list []) = .list items ∧ s.MeansAll h items p.consts
  code : ∃ items, given.get "code" (.list []) = .list items ∧
    List.Forall₂ Form.IsWord items p.code

/-- The fields of a closure that are fields of the prototype of its own. -/
def Given.own (given : Given) : Given := fun field =>
  if field = "upvals" then (given field).filter fun f => !f.isCaptured else given field

/-- A closure is what its fields say; `own` is the prototype that it has by itself. -/
structure ClosureFits (s : Scope) (h : Heap) (given : Given) (own : Option ProtoId) (c : Closure) :
    Prop where
  captured : (given.get "upvals" (.list [])).isCaptured →
    ∃ items, given.get "upvals" (.list []) = .list items ∧ s.MeansAll h items c.captured
  pairs : (given.get "upvals" (.list [])).isCaptured = false → c.captured = []
  proto : ∀ f, given "proto" = some f → s.NamesProto f c.proto
  own : given "proto" = none → ∀ id, own = some id → c.proto = id

def Scope.MeansMembers (s : Scope) (h : Heap) (f : Form) (members : Option MapId) : Prop :=
  (f = .nil ∧ members = none) ∨
    ∃ entries id, f = .map entries ∧ s.Means h f (.plain (.map id)) ∧ members = some id

structure ClassFits (s : Scope) (h : Heap) (shown : String) (given : Given) (c : ClassObject) :
    Prop where
  name : given.get "name" (.string shown) = .string c.name
  nvar : given.get "nvar" (.int 0) = .int c.nvar.toNat
  super : s.NamesClass (given.get "super" .nil) c.super
  members : s.MeansMembers h (given.get "members" .nil) c.members

structure ModuleFits (s : Scope) (h : Heap) (shown : String) (given : Given) (m : ModuleObject) :
    Prop where
  name : ∃ n, m.name = some n ∧ given.get "name" (.string shown) = .string n
  members : s.MeansMembers h (given.get "members" .nil) m.members

section

variable {s : Scope} {h h' : Heap} {f : Field} {given : Given} {shown : String}

theorem Given.get_with (field : String) (default : Form) : (given.with f).get field default =
    if field = f.name.value then f.value.value.form else given.get field default := by
  simp only [get, Given.with]
  split <;> rfl

theorem valuesOf_ok {e : Located Expr} {vs : List Value} (run : valuesOf s e h = .ok (vs, h'))
    (known : s.Known h) :
    ∃ order items, h.Grows order h' ∧ e.value.form = .list items ∧ s.MeansAll h' items vs := by
  obtain ⟨items, _, read, run⟩ := bind_ok run
  obtain ⟨rfl, list⟩ := listOf_ok read
  obtain ⟨order, grows, means⟩ := values_ok items vs _ h' known run
  exact ⟨order, formsOf items, grows, by rw [list, Expr.form], means⟩

theorem listOf_mapM_ok {α β : Type} {e : Located Expr} {read : Located Expr → Load α}
    {next : List α → Load β} {b : β} (relation : Form → α → Prop)
    (run : (listOf e >>= fun items => items.mapM read >>= next) h = .ok (b, h'))
    (each : ∀ (e : Located Expr) (a : α) (h h' : Heap), read e h = .ok (a, h') →
      h = h' ∧ relation e.value.form a) :
    ∃ items xs, e.value.form = .list items ∧ List.Forall₂ relation items xs ∧
      next xs h = .ok (b, h') := by
  obtain ⟨items, _, listed, run⟩ := bind_ok run
  obtain ⟨rfl, list⟩ := listOf_ok listed
  obtain ⟨xs, _, mapped, run⟩ := bind_ok run
  obtain ⟨rfl, all⟩ := mapM_ok (fun e a => relation e.value.form a) each mapped
  refine ⟨formsOf items, xs, by rw [list, Expr.form], ?_, run⟩
  rw [formsOf_eq_map, List.forall₂_map_left_iff]
  exact all

theorem protoField_ok {id : ProtoId} {effect : Load Unit}
    (found : protoField? s id f = some effect) (run : effect h = .ok ((), h')) (known : s.Known h) :
    ∃ order mid g, h.Grows order mid ∧ h' = mid.modifyProto id g ∧
      ∀ shown given p, ProtoFits s mid shown given p →
        ProtoFits s mid shown (given.with f) (g p) := by
  unfold protoField? at found
  dsimp only at found
  split at found
  case h_1 name | h_2 name =>
    cases found
    obtain ⟨x, _, read, run⟩ := bind_ok run
    obtain ⟨rfl, form⟩ := stringOf_ok read
    refine ⟨[], h, _, .same, (modify_ok run).symm, fun shown given p fits => ?_⟩
    obtain ⟨a, b, c, d, e, f, g, h, i, j⟩ := fits
    constructor <;> simp only [Given.get_with, name, String.reduceEq, reduceIte] <;> assumption
  case h_3 name | h_4 name | h_5 name =>
    cases found
    obtain ⟨x, _, read, run⟩ := bind_ok run
    obtain ⟨rfl, form⟩ := byteOf_ok read
    refine ⟨[], h, _, .same, (modify_ok run).symm, fun shown given p fits => ?_⟩
    obtain ⟨a, b, c, d, e, f, g, h, i, j⟩ := fits
    constructor <;> simp only [Given.get_with, name, String.reduceEq, reduceIte] <;> assumption
  case h_6 name =>
    cases found
    obtain ⟨items, x, form, pairs, run⟩ :=
      listOf_mapM_ok Form.IsUpvalue run fun _ _ _ _ => upvalue_ok
    have listed : ∃ items, f.value.value.form = .list items ∧
        List.Forall₂ Form.IsUpvalue items x := ⟨items, form, pairs⟩
    refine ⟨[], h, _, .same, (modify_ok run).symm, fun shown given p fits => ?_⟩
    obtain ⟨a, b, c, d, e, f, g, h, i, j⟩ := fits
    constructor <;> simp only [Given.get_with, name, String.reduceEq, reduceIte] <;> assumption
  case h_7 name =>
    cases found
    obtain ⟨items, x, form, named, run⟩ :=
      listOf_mapM_ok s.NamesProto run fun _ _ _ _ => protoRef_ok
    have listed : ∃ items, f.value.value.form = .list items ∧
        List.Forall₂ s.NamesProto items x := ⟨items, form, named⟩
    refine ⟨[], h, _, .same, (modify_ok run).symm, fun shown given p fits => ?_⟩
    obtain ⟨a, b, c, d, e, f, g, h, i, j⟩ := fits
    constructor <;> simp only [Given.get_with, name, String.reduceEq, reduceIte] <;> assumption
  case h_8 name =>
    cases found
    obtain ⟨x, _, read, run⟩ := bind_ok run
    obtain ⟨rfl, named⟩ := classRef_ok read
    refine ⟨[], h, _, .same, (modify_ok run).symm, fun shown given p fits => ?_⟩
    obtain ⟨a, b, c, d, e, f, g, h, i, j⟩ := fits
    constructor <;> simp only [Given.get_with, name, String.reduceEq, reduceIte] <;> assumption
  case h_9 name =>
    cases found
    obtain ⟨x, mid, read, run⟩ := bind_ok run
    obtain ⟨order, items, grows, form, means⟩ := valuesOf_ok read known
    have listed : ∃ items, f.value.value.form = .list items ∧ s.MeansAll mid items x :=
      ⟨items, form, means⟩
    refine ⟨order, mid, _, grows, (modify_ok run).symm, fun shown given p fits => ?_⟩
    obtain ⟨a, b, c, d, e, f, g, h, i, j⟩ := fits
    constructor <;> simp only [Given.get_with, name, String.reduceEq, reduceIte] <;> assumption
  case h_10 name =>
    cases found
    obtain ⟨items, x, form, words, run⟩ :=
      listOf_mapM_ok (fun f x => f.IsWord ⟨x⟩) run fun _ _ _ _ => wordOf_ok
    have listed : ∃ items, f.value.value.form = .list items ∧
        List.Forall₂ Form.IsWord items (x.map Instruction.mk) :=
      ⟨items, form, List.forall₂_map_right_iff.mpr words⟩
    refine ⟨[], h, _, .same, (modify_ok run).symm, fun shown given p fits => ?_⟩
    obtain ⟨a, b, c, d, e, f, g, h, i, j⟩ := fits
    constructor <;> simp only [Given.get_with, name, String.reduceEq, reduceIte] <;> assumption
  case h_11 => cases found

theorem optionalMap_ok {e : Located Expr} {id? : Option MapId}
    (run : optionalMap s e h = .ok (id?, h')) (known : s.Known h) :
    ∃ order, h.Grows order h' ∧ s.MeansMembers h' e.value.form id? := by
  obtain ⟨e, span⟩ := e
  cases e with
  | nil =>
      obtain ⟨rfl, rfl⟩ := pure_ok run
      exact ⟨[], .same, Or.inl ⟨rfl, rfl⟩⟩
  | map entries =>
      obtain ⟨v, mid, evaluated, run⟩ := bind_ok run
      obtain ⟨order, grows, means⟩ := value_ok _ span v h mid known evaluated
      have shape := means
      rw [Expr.form, Scope.Means] at shape
      obtain ⟨id, t, pairs, rfl, _⟩ := shape
      obtain ⟨rfl, rfl⟩ := pure_ok run
      exact ⟨order, grows, Or.inr ⟨_, id, rfl, means, rfl⟩⟩
  | _ => exact (mismatch_ok run).elim

theorem classField_ok {id : ClassId} {effect : Load Unit}
    (found : classField? s id f = some effect) (run : effect h = .ok ((), h')) (known : s.Known h) :
    ∃ order mid g, h.Grows order mid ∧ h' = mid.modifyClass id g ∧
      ∀ shown given c, ClassFits s mid shown given c →
        ClassFits s mid shown (given.with f) (g c) := by
  unfold classField? at found
  dsimp only at found
  split at found
  case h_1 name =>
    cases found
    obtain ⟨x, _, read, run⟩ := bind_ok run
    obtain ⟨rfl, form⟩ := stringOf_ok read
    refine ⟨[], h, _, .same, (modify_ok run).symm, fun shown given c fits => ?_⟩
    obtain ⟨a, b, c, d⟩ := fits
    constructor <;> simp only [Given.get_with, name, String.reduceEq, reduceIte] <;> assumption
  case h_2 name =>
    cases found
    obtain ⟨x, _, read, run⟩ := bind_ok run
    obtain ⟨rfl, form⟩ := wordOf_ok read
    refine ⟨[], h, _, .same, (modify_ok run).symm, fun shown given c fits => ?_⟩
    obtain ⟨a, b, c, d⟩ := fits
    constructor <;> simp only [Given.get_with, name, String.reduceEq, reduceIte] <;> assumption
  case h_3 name =>
    cases found
    obtain ⟨x, _, read, run⟩ := bind_ok run
    obtain ⟨rfl, named⟩ := classRef_ok read
    refine ⟨[], h, _, .same, (modify_ok run).symm, fun shown given c fits => ?_⟩
    obtain ⟨a, b, c, d⟩ := fits
    constructor <;> simp only [Given.get_with, name, String.reduceEq, reduceIte] <;> assumption
  case h_4 name =>
    cases found
    obtain ⟨x, mid, read, run⟩ := bind_ok run
    obtain ⟨order, grows, means⟩ := optionalMap_ok read known
    refine ⟨order, mid, _, grows, (modify_ok run).symm, fun shown given c fits => ?_⟩
    obtain ⟨a, b, c, d⟩ := fits
    constructor <;> simp only [Given.get_with, name, String.reduceEq, reduceIte] <;> assumption
  case h_5 => cases found

theorem moduleField_ok {id : ModuleId} {effect : Load Unit}
    (found : moduleField? s id f = some effect) (run : effect h = .ok ((), h'))
    (known : s.Known h) :
    ∃ order mid g, h.Grows order mid ∧ h' = mid.modifyModule id g ∧
      ∀ shown given m, ModuleFits s mid shown given m →
        ModuleFits s mid shown (given.with f) (g m) := by
  unfold moduleField? at found
  dsimp only at found
  split at found
  case h_1 name =>
    cases found
    obtain ⟨x, _, read, run⟩ := bind_ok run
    obtain ⟨rfl, form⟩ := stringOf_ok read
    refine ⟨[], h, _, .same, (modify_ok run).symm, fun shown given m fits => ?_⟩
    have shows : ∃ n, some x = some n ∧ f.value.value.form = .string n := ⟨x, rfl, form⟩
    obtain ⟨a, b⟩ := fits
    constructor <;> simp only [Given.get_with, name, String.reduceEq, reduceIte] <;> assumption
  case h_2 name =>
    cases found
    obtain ⟨x, mid, read, run⟩ := bind_ok run
    obtain ⟨order, grows, means⟩ := optionalMap_ok read known
    refine ⟨order, mid, _, grows, (modify_ok run).symm, fun shown given m fits => ?_⟩
    obtain ⟨a, b⟩ := fits
    constructor <;> simp only [Given.get_with, name, String.reduceEq, reduceIte] <;> assumption
  case h_3 => cases found

section

variable (retains : Retains h h')

include retains

theorem Scope.MeansMembers.mono {f : Form} {members : Option MapId}
    (means : s.MeansMembers h f members) : s.MeansMembers h' f members := by
  rcases means with none | ⟨entries, id, rfl, means, rfl⟩
  · exact Or.inl none
  · exact Or.inr ⟨entries, id, rfl, means.mono retains _ _, rfl⟩

theorem ProtoFits.mono {p : Prototype} (fits : ProtoFits s h shown given p) :
    ProtoFits s h' shown given p := by
  obtain ⟨items, form, means⟩ := fits.consts
  exact { fits with consts := ⟨items, form, means.mono retains items p.consts⟩ }

theorem ClosureFits.mono {own : Option ProtoId} {c : Closure} (fits : ClosureFits s h given own c) :
    ClosureFits s h' given own c := by
  refine { fits with captured := fun isCaptured => ?_ }
  obtain ⟨items, form, means⟩ := fits.captured isCaptured
  exact ⟨items, form, means.mono retains items c.captured⟩

theorem ClassFits.mono {c : ClassObject} (fits : ClassFits s h shown given c) :
    ClassFits s h' shown given c :=
  { fits with members := fits.members.mono retains }

theorem ModuleFits.mono {m : ModuleObject} (fits : ModuleFits s h shown given m) :
    ModuleFits s h' shown given m :=
  { fits with members := fits.members.mono retains }

end

end

end StaticImage.Snapshot
