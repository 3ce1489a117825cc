import StaticImage.Proofs.Snapshot.Twins

namespace StaticImage.Snapshot

inductive Declared.SameKind : Declared → Declared → Prop where
  | proto (i j : ProtoId) : SameKind (.proto i) (.proto j)
  | closure (i j : ClosureId) (a b : Option ProtoId) : SameKind (.closure i a) (.closure j b)
  | classItem (i j : ClassId) : SameKind (.classItem i) (.classItem j)
  | moduleItem (i j : ModuleId) : SameKind (.moduleItem i) (.moduleItem j)

theorem Item.DeclaredAs.sameKind {i : Item} {d d' : Declared} (kind : i.DeclaredAs (some d))
    (kind' : i.DeclaredAs (some d')) : d.SameKind d' := by
  rcases d with _ | _ | _ | _ <;> rcases d' with _ | _ | _ | _ <;>
    simp only [Item.DeclaredAs] at kind kind' <;>
    first | constructor | simp [kind] at kind'

inductive Declared.Pairs : Declared → Declared → ObjectId → ObjectId → Prop where
  | proto (i j : ProtoId) : Pairs (.proto i) (.proto j) (.proto i) (.proto j)
  | closure (i j : ClosureId) (a b : Option ProtoId) :
      Pairs (.closure i a) (.closure j b) (.closure i) (.closure j)
  | own (i j : ClosureId) (a b : ProtoId) :
      Pairs (.closure i (some a)) (.closure j (some b)) (.proto a) (.proto b)
  | classItem (i j : ClassId) : Pairs (.classItem i) (.classItem j) (.classObject i) (.classObject j)
  | moduleItem (i j : ModuleId) :
      Pairs (.moduleItem i) (.moduleItem j) (.moduleObject i) (.moduleObject j)

theorem Declared.Pairs.mem {d d' : Declared} {o o' : ObjectId} (paired : d.Pairs d' o o') :
    o ∈ d.objects ∧ o' ∈ d'.objects := by
  cases paired <;> simp [Declared.objects]

def Scope.pairing (s s' : Scope) : Pairing := fun o o' =>
  ∃ name d d', s.names.lookup name = some d ∧ s'.names.lookup name = some d' ∧ d.Pairs d' o o'

/-- An object belongs to one item only. -/
theorem owner_unique {names : List (String × Declared)}
    (apart : names.Pairwise fun a b => a.2.objects.Disjoint b.2.objects) {name name' : String}
    {d d' : Declared} {o : ObjectId} (found : names.lookup name = some d)
    (found' : names.lookup name' = some d') (member : o ∈ d.objects) (member' : o ∈ d'.objects) :
    name = name' := by
  by_contra other
  have symmetric : Std.Symm fun a b : String × Declared => a.2.objects.Disjoint b.2.objects :=
    ⟨fun _ _ disjoint => disjoint.symm⟩
  have disjoint := apart.forall (mem_of_lookup found) (mem_of_lookup found')
    fun same => other (congrArg Prod.fst same)
  exact disjoint member member'

section

variable {s s' : Scope} {h h' : Heap} {shown : String} {given : Given}

theorem Scope.NamesProto.paired {f : Form} {i j : ProtoId} (named : s.NamesProto f i)
    (named' : s'.NamesProto f j) : s.pairing s' (.proto i) (.proto j) := by
  obtain ⟨name, rfl, found⟩ := named
  obtain ⟨_, same, found'⟩ := named'
  cases same
  exact ⟨name, _, _, found, found', .proto i j⟩

theorem Scope.NamesClass.paired {f : Form} {i j : Option ClassId} (named : s.NamesClass f i)
    (named' : s'.NamesClass f j) :
    Option.Rel (fun i j => s.pairing s' (.classObject i) (.classObject j)) i j := by
  rcases named with ⟨rfl, rfl⟩ | ⟨name, id, rfl, found, rfl⟩
  · rcases named' with ⟨_, rfl⟩ | ⟨_, _, other, _⟩
    · exact .none
    · cases other
  · rcases named' with ⟨other, _⟩ | ⟨_, id', same, found', rfl⟩
    · cases other
    · cases same
      exact .some ⟨name, _, _, found, found', .classItem id id'⟩

theorem Form.IsUpvalue.unique {f : Form} {u u' : Upvalue} (first : f.IsUpvalue u)
    (second : f.IsUpvalue u') : u = u' := by
  obtain ⟨flag, rfl, inStack⟩ := first
  obtain ⟨_, same, inStack'⟩ := second
  obtain ⟨a, i⟩ := u
  obtain ⟨b, j⟩ := u'
  simp only [Form.list.injEq, List.cons.injEq, Form.int.injEq, and_true] at same
  obtain ⟨rfl, index⟩ := same
  have index : i = j := UInt8.toNat_inj.mp (Int.ofNat.inj index)
  rw [index]
  cases a <;> cases b <;> rcases inStack with rfl | rfl <;> simp_all

theorem Form.IsWord.unique {f : Form} {i i' : Instruction} (first : f.IsWord i)
    (second : f.IsWord i') : i = i' := by
  have same := Form.int.inj (first.symm.trans second)
  obtain ⟨w⟩ := i
  obtain ⟨w'⟩ := i'
  exact congrArg Instruction.mk (UInt32.toNat_inj.mp (Int.ofNat.inj same))

theorem ProtoFits.like {p q : Prototype} (fits : ProtoFits s h shown given p)
    (fits' : ProtoFits s' h' shown given q) : p.Like (s.pairing s') q := by
  have byte {f : Form} {n m : UInt8} (first : f = .int n.toNat) (second : f = .int m.toNat) :
      n = m := UInt8.toNat_inj.mp (Int.ofNat.inj (Form.int.inj (first.symm.trans second)))
  obtain ⟨upvalues, form, all⟩ := fits.upvalues
  obtain ⟨_, form', all'⟩ := fits'.upvalues
  cases form.symm.trans form'
  obtain ⟨protos, form, protos_named⟩ := fits.protos
  obtain ⟨_, form', protos_named'⟩ := fits'.protos
  cases form.symm.trans form'
  obtain ⟨code, form, words⟩ := fits.code
  obtain ⟨_, form', words'⟩ := fits'.code
  cases form.symm.trans form'
  exact {
    name := Form.string.inj (fits.name.symm.trans fits'.name)
    nstack := byte fits.nstack fits'.nstack
    argc := byte fits.argc fits'.argc
    varg := byte fits.varg fits'.varg
    upvalues := forall₂_unique (R := Form.IsUpvalue) (fun _ _ _ => Form.IsUpvalue.unique) all all'
    protos := forall₂_meet (R := s.NamesProto) (S := s'.NamesProto)
      (fun _ _ _ named named' => named.paired named') protos_named protos_named'
    owner := fits.owner.paired fits'.owner
    code := forall₂_unique (R := Form.IsWord) (fun _ _ _ => Form.IsWord.unique) words words' }

theorem meansAll_length {fs : List Form} {vs ws : List Value} (means : s.MeansAll h fs vs)
    (means' : s'.MeansAll h' fs ws) : vs.length = ws.length := by
  induction fs generalizing vs ws with
  | nil =>
      unfold Scope.MeansAll at means means'
      rw [means, means']
  | cons f fs ih =>
      unfold Scope.MeansAll at means means'
      obtain ⟨v, vs, rfl, _, rest⟩ := means
      obtain ⟨w, ws, rfl, _, rest'⟩ := means'
      rw [List.length_cons, List.length_cons, ih rest rest']

/-- The same fields make the same closure, if both have a prototype of their own or neither. -/
theorem ClosureFits.like {a b : Option ProtoId} {c d : Closure}
    (fits : ClosureFits s h given a c) (fits' : ClosureFits s' h' given b d)
    (has_own : a.isNone = (given "proto").isSome) (has_own' : b.isNone = (given "proto").isSome)
    (own : ∀ p q, a = some p → b = some q → s.pairing s' (.proto p) (.proto q)) :
    c.Like (s.pairing s') d := by
  constructor
  · cases proto : given "proto" with
    | some f => exact (fits.proto f proto).paired (fits'.proto f proto)
    | none =>
        rw [proto] at has_own has_own'
        obtain ⟨p, owned⟩ := Option.isSome_iff_exists.mp (by simpa using has_own)
        obtain ⟨q, owned'⟩ := Option.isSome_iff_exists.mp (by simpa using has_own')
        rw [fits.own proto p owned, fits'.own proto q owned']
        exact own p q owned owned'
  · by_cases captured : (given.get "upvals" (.list [])).isCaptured
    · obtain ⟨items, form, means⟩ := fits.captured captured
      obtain ⟨_, form', means'⟩ := fits'.captured captured
      cases form.symm.trans form'
      have length := meansAll_length means means'
      rw [Bool.eq_iff_iff, List.isEmpty_iff_length_eq_zero, List.isEmpty_iff_length_eq_zero, length]
    · rw [Bool.not_eq_true] at captured
      rw [fits.pairs captured, fits'.pairs captured]

theorem ClassFits.like {c d : ClassObject} (fits : ClassFits s h shown given c)
    (fits' : ClassFits s' h' shown given d) : c.Like (s.pairing s') d := by
  refine ⟨Form.string.inj (fits.name.symm.trans fits'.name), ?_, fits.super.paired fits'.super⟩
  have same := Form.int.inj (fits.nvar.symm.trans fits'.nvar)
  exact UInt32.toNat_inj.mp (Int.ofNat.inj same)

theorem ModuleFits.like {m n : ModuleObject} (fits : ModuleFits s h shown given m)
    (fits' : ModuleFits s' h' shown given n) : m.name = n.name := by
  obtain ⟨name, named, form⟩ := fits.name
  obtain ⟨name', named', form'⟩ := fits'.name
  rw [named, named', Form.string.inj (form.symm.trans form')]

end

section

variable {s s' : Scope} {h h' : Heap} (twins : Twins s h s' h')

include twins

theorem Twins.protos {i j : ProtoId} (paired : s.pairing s' (.proto i) (.proto j)) :
    ∃ p q shown given, h.proto? i = some p ∧ h'.proto? j = some q ∧
      ProtoFits s h shown given p ∧ ProtoFits s' h' shown given q := by
  obtain ⟨name, d, d', found, found', paired⟩ := paired
  obtain ⟨e, item, also, _, _, describes, describes'⟩ := twins.item name d found
  cases found'.symm.trans also
  cases paired with
  | proto =>
      obtain ⟨p, present, fits⟩ := describes
      obtain ⟨q, present', fits'⟩ := describes'
      exact ⟨p, q, _, _, present, present', fits, fits'⟩
  | own c d =>
      obtain ⟨p, present, fits⟩ := describes.2 i rfl
      obtain ⟨q, present', fits'⟩ := describes'.2 j rfl
      exact ⟨p, q, _, _, present, present', fits, fits'⟩

theorem Twins.classes {i j : ClassId} (paired : s.pairing s' (.classObject i) (.classObject j)) :
    ∃ c d shown given, h.class? i = some c ∧ h'.class? j = some d ∧
      ClassFits s h shown given c ∧ ClassFits s' h' shown given d := by
  obtain ⟨name, d, d', found, found', paired⟩ := paired
  obtain ⟨e, item, also, _, _, describes, describes'⟩ := twins.item name d found
  cases found'.symm.trans also
  cases paired
  obtain ⟨c, present, fits⟩ := describes
  obtain ⟨d, present', fits'⟩ := describes'
  exact ⟨c, d, _, _, present, present', fits, fits'⟩

theorem Twins.modules {i j : ModuleId} (paired : s.pairing s' (.moduleObject i) (.moduleObject j)) :
    ∃ m n shown given, h.module? i = some m ∧ h'.module? j = some n ∧
      ModuleFits s h shown given m ∧ ModuleFits s' h' shown given n := by
  obtain ⟨name, d, d', found, found', paired⟩ := paired
  obtain ⟨e, item, also, _, _, describes, describes'⟩ := twins.item name d found
  cases found'.symm.trans also
  cases paired
  obtain ⟨m, present, fits⟩ := describes
  obtain ⟨n, present', fits'⟩ := describes'
  exact ⟨m, n, _, _, present, present', fits, fits'⟩

theorem Twins.closures {i j : ClosureId} (paired : s.pairing s' (.closure i) (.closure j)) :
    ∃ c d, h.closureAt? i = some c ∧ h'.closureAt? j = some d ∧ c.Like (s.pairing s') d := by
  obtain ⟨name, d, d', found, found', paired⟩ := paired
  obtain ⟨e, item, also, kind, kind', describes, describes'⟩ := twins.item name d found
  cases found'.symm.trans also
  cases paired with
  | closure _ _ a b =>
      obtain ⟨⟨c, present, fits⟩, _⟩ := describes
      obtain ⟨⟨d, present', fits'⟩, _⟩ := describes'
      refine ⟨c, d, present, present', fits.like fits' kind.2 kind'.2 ?_⟩
      rintro p q rfl rfl
      exact ⟨name, _, _, found, found', .own i j p q⟩

theorem Twins.class_unique {i i' j j' : ClassId}
    (first : s.pairing s' (.classObject i) (.classObject j))
    (second : s.pairing s' (.classObject i') (.classObject j')) : i = i' ↔ j = j' := by
  obtain ⟨name, d, d', found, found', paired⟩ := first
  obtain ⟨name', e, e', also, also', paired'⟩ := second
  have members := paired.mem
  have members' := paired'.mem
  constructor
  · rintro rfl
    cases owner_unique twins.apart found also members.1 members'.1
    cases found'.symm.trans also'
    cases paired
    cases paired'
    rfl
  · rintro rfl
    cases owner_unique twins.apart' found' also' members.2 members'.2
    cases found.symm.trans also
    cases paired
    cases paired'
    rfl

/-- Objects that are paired have the same fields. -/
theorem Twins.outline : h.SameOutline h' (s.pairing s') where
  protos i j paired := by
    obtain ⟨p, q, shown, given, present, present', fits, fits'⟩ := twins.protos paired
    rw [present, present']
    exact .some (fits.like fits')
  closures i j paired := by
    obtain ⟨c, d, present, present', like⟩ := twins.closures paired
    rw [present, present']
    exact .some like
  classes i j paired := by
    obtain ⟨c, d, shown, given, present, present', fits, fits'⟩ := twins.classes paired
    rw [present, present']
    exact .some (fits.like fits')
  modules i j paired := by
    obtain ⟨m, n, shown, given, present, present', fits, fits'⟩ := twins.modules paired
    rw [present, present']
    exact .some (fits.like fits')
  unique _ _ _ _ := twins.class_unique
  builtins := congrArg List.length twins.builtins

end

end StaticImage.Snapshot
