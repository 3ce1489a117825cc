import StaticImage.Proofs.Snapshot.Pairing

/-!
What one form means in twins. The values are written alike: scalars are the same, names lead to
objects that are paired, and lists, maps and instances hold what is written alike. A map whose keys
are objects may be laid out differently, but it is not written to its end anyway.
-/

namespace StaticImage.Snapshot

open Heap (WrittenAlike)

def isHeld : Datum → Bool
  | .list _ => true
  | .map _ => true
  | .instanceObject _ => true
  | _ => false

theorem isSome_object?_of_isHeld {d : Datum} (held : isHeld d) :
    (Value.plain d).object?.isSome := by
  cases d <;> first | rfl | cases held

theorem not_printed_of_object {d : Datum} (refers : (Value.plain d).object?.isSome) :
    ¬ d.IsPrintedKey := by
  rintro (⟨text, rfl⟩ | ⟨n, rfl⟩)
  · cases refers
  · cases refers

/-- Values that one form means in twins. -/
structure Scope.Matched (s : Scope) (h : Heap) (s' : Scope) (h' : Heap) (v w : Value) : Prop where
  flag : v.isStatic = w.isStatic
  written : ∀ isStatic, h.WrittenAlike h' ⟨v.data, isStatic⟩ ⟨w.data, isStatic⟩
  closure : Option.Rel (fun i j => s.pairing s' (.closure i) (.closure j)) v.closure? w.closure?
  classObject : Option.Rel (fun i j => s.pairing s' (.classObject i) (.classObject j)) v.class?
    w.class?
  key : v.data = w.data ∨ (¬ v.data.IsPrintedKey ∧ ¬ w.data.IsPrintedKey)

variable {s s' : Scope} {h h' : Heap}

namespace Scope.Matched

theorem alike {v w : Value} (matched : s.Matched h s' h' v w) : h.Alike h' (s.pairing s') v w := by
  refine ⟨?_, matched.closure, matched.classObject⟩
  have written := matched.written v.isStatic
  obtain ⟨data, isStatic⟩ := w
  cases matched.flag
  exact written

theorem sameKey {v w : Value} (matched : s.Matched h s' h' v w) : v.SameKey w := by
  refine matched.key.imp_left fun same => ?_
  obtain ⟨data, isStatic⟩ := v
  obtain ⟨data', isStatic'⟩ := w
  cases matched.flag
  cases same
  rfl

theorem withStatic {v w : Value} (matched : s.Matched h s' h' v w) :
    s.Matched h s' h' v.withStatic w.withStatic :=
  ⟨rfl, matched.written, matched.closure, matched.classObject, matched.key⟩

theorem of_plain (d : Datum) (plain : (Value.plain d).object? = none) :
    s.Matched h s' h' (.plain d) (.plain d) := by
  refine ⟨rfl, fun isStatic => Heap.writtenAlike_of_plain _ plain, ?_, ?_, Or.inl rfl⟩
  all_goals cases d <;> first | exact .none | cases plain

theorem of_written {d d' : Datum} (held : isHeld d) (held' : isHeld d')
    (written : ∀ isStatic, h.WrittenAlike h' ⟨d, isStatic⟩ ⟨d', isStatic⟩) :
    s.Matched h s' h' (.plain d) (.plain d') := by
  have key := not_printed_of_object (isSome_object?_of_isHeld held)
  have key' := not_printed_of_object (isSome_object?_of_isHeld held')
  refine ⟨rfl, written, ?_, ?_, Or.inr ⟨key, key'⟩⟩
  · cases d <;> first | exact Bool.noConfusion held |
      (cases d' <;> first | exact Bool.noConfusion held' | exact .none)
  · cases d <;> first | exact Bool.noConfusion held |
      (cases d' <;> first | exact Bool.noConfusion held' | exact .none)

end Scope.Matched

theorem Form.MeansKey.same {key : Form} {inner inner' : Value → Prop} {k l : Value}
    (means : key.MeansKey inner k) (means' : key.MeansKey inner' l)
    (matched : ∀ v w, inner v → inner' w → v.SameKey w) : k.SameKey l := by
  cases key with
  | ref name => exact Or.inl (means.trans means'.symm)
  | _ => exact matched k l means means'

section

variable (twins : Twins s h s' h')

include twins

theorem Twins.reference {name : String} {d d' : Declared} {v w : Value}
    (found : s.names.lookup name = some d) (found' : s'.names.lookup name = some d')
    (means : d.value? = some v) (means' : d'.value? = some w) : s.Matched h s' h' v w := by
  obtain ⟨e, item, also, kind, kind', _⟩ := twins.item name d found
  cases found'.symm.trans also
  cases kind.sameKind kind' with
  | proto i j => cases means
  | closure i j a b =>
      cases means
      cases means'
      have paired : s.pairing s' (.closure i) (.closure j) :=
        ⟨name, _, _, found, found', .closure i j a b⟩
      refine ⟨rfl, fun isStatic => Heap.writtenAlike_of_succ ?_, .some paired, .none,
        Or.inr ⟨not_printed_of_object rfl, not_printed_of_object rfl⟩⟩
      intro context key nesting nesting' opened opened'
      simp only [Heap.unfold, Value.plain, twins.outline.closureConstant paired]
      exact .refl _
  | classItem i j =>
      cases means
      cases means'
      have paired : s.pairing s' (.classObject i) (.classObject j) :=
        ⟨name, _, _, found, found', .classItem i j⟩
      refine ⟨rfl, fun isStatic => Heap.writtenAlike_of_succ ?_, .none, .some paired,
        Or.inr ⟨not_printed_of_object rfl, not_printed_of_object rfl⟩⟩
      intro context key nesting nesting' opened opened'
      simp only [Heap.unfold, Value.plain, twins.outline.className? paired]
      exact .refl _
  | moduleItem i j =>
      cases means
      cases means'
      refine ⟨rfl, fun isStatic => Heap.writtenAlike_of_succ ?_, .none, .none,
        Or.inr ⟨not_printed_of_object rfl, not_printed_of_object rfl⟩⟩
      intro context key nesting nesting' opened opened'
      exact .refl _

theorem Twins.constructs {function : String} {argument : Form} {inner inner' : Value → Prop}
    {v w : Value} (made : s.Constructs h function argument inner v)
    (made' : s'.Constructs h' function argument inner' w)
    (matched : ∀ v w, inner v → inner' w → s.Matched h s' h' v w) : s.Matched h s' h' v w := by
  unfold Scope.Constructs at made made'
  split at made
  case h_1 =>
    obtain ⟨n, rfl, rfl⟩ := made
    obtain ⟨_, same, rfl⟩ := made'
    cases same
    exact .of_plain _ rfl
  case h_2 =>
    obtain ⟨a, means, rfl⟩ := made
    obtain ⟨b, means', rfl⟩ := made'
    exact (matched a b means means').withStatic
  case h_3 | h_4 | h_5 =>
    obtain ⟨name, named, rfl⟩ := made
    obtain ⟨_, named', rfl⟩ := made'
    cases named.symm.trans named'
    exact .of_plain _ rfl
  case h_6 =>
    obtain ⟨text, data, id, rfl, read, rfl, present⟩ := made
    obtain ⟨_, _, id', same, read', rfl, present'⟩ := made'
    cases same
    cases read.symm.trans read'
    exact .of_written rfl rfl fun isStatic =>
      Heap.writtenAlike_instance (c := .bytes data) present present' rfl rfl
  case h_7 =>
    obtain ⟨a, i, id, means, map, rfl, present⟩ := made
    obtain ⟨b, j, id', means', map', rfl, present'⟩ := made'
    have inside := (matched a b means means').written false
    rw [map, map'] at inside
    exact .of_written rfl rfl fun isStatic =>
      Heap.writtenAlike_wrapped .map present present' rfl rfl inside
  case h_8 =>
    obtain ⟨a, i, id, means, list, rfl, present⟩ := made
    obtain ⟨b, j, id', means', list', rfl, present'⟩ := made'
    have inside := (matched a b means means').written false
    rw [list, list'] at inside
    exact .of_written rfl rfl fun isStatic =>
      Heap.writtenAlike_wrapped .list present present' rfl rfl inside
  case h_9 =>
    obtain ⟨cls, id, named, rfl, present⟩ := made
    obtain ⟨cls', id', named', rfl, present'⟩ := made'
    cases named.paired named' with
    | some paired =>
        have same := twins.outline.className? paired
        refine .of_written rfl rfl fun isStatic => ?_
        cases name : h'.className? cls' with
        | none =>
            rw [name] at same
            exact Heap.writtenAlike_instance (c := .refused .dangling) present present'
              (by simp [Heap.instanceContent, same]) (by simp [Heap.instanceContent, name])
        | some text =>
            rw [name] at same
            exact Heap.writtenAlike_instance (c := .refused (.instanceOf text)) present present'
              (by simp [Heap.instanceContent, same]) (by simp [Heap.instanceContent, name])
  case h_10 => exact made.elim

end

mutual

/-- What a form means in both heaps matches. -/
theorem Twins.means (twins : Twins s h s' h') (f : Form) (v w : Value) (means : s.Means h f v)
    (means' : s'.Means h' f w) : s.Matched h s' h' v w :=
  match f with
  | .nil | .bool _ | .int _ | .string _ => by
      unfold Scope.Means at means means'
      rw [means, means']
      exact .of_plain _ rfl
  | .real literal => by
      unfold Scope.Means at means means'
      obtain ⟨r, read, rfl⟩ := means
      obtain ⟨_, read', rfl⟩ := means'
      rw [twins.host] at read
      cases read.symm.trans read'
      exact .of_plain _ rfl
  | .ref name => by
      unfold Scope.Means at means means'
      obtain ⟨d, found, value⟩ := means
      obtain ⟨d', found', value'⟩ := means'
      exact twins.reference found found' value value'
  | .call _ [] => by
      unfold Scope.Means at means
      exact means.elim
  | .call function [argument] => by
      unfold Scope.Means at means means'
      exact twins.constructs means means' fun v w => twins.means argument v w
  | .call _ (_ :: _ :: _) => by
      unfold Scope.Means at means
      exact means.elim
  | .list items => by
      unfold Scope.Means at means means'
      obtain ⟨id, values, rfl, present, all⟩ := means
      obtain ⟨id', values', rfl, present', all'⟩ := means'
      have matched := twins.meansAll items values values' all all'
      exact .of_written rfl rfl fun isStatic =>
        Heap.writtenAlike_list present present' (matched.imp fun v w here => here.alike.written)
  | .map entries => by
      unfold Scope.Means at means means'
      obtain ⟨id, t, bindings, rfl, present, each, made⟩ := means
      obtain ⟨id', t', bindings', rfl, present', each', made'⟩ := means'
      have matched := twins.meansEach entries bindings bindings' each each'
      have tables := Table.Match.of_bindings (R := h.WrittenAlike h')
        (matched.imp fun a b here => ⟨here.1, here.2.alike.written⟩) made made'
      exact .of_written rfl rfl fun isStatic => Heap.writtenAlike_map present present' tables

theorem Twins.meansAll (twins : Twins s h s' h') (fs : List Form) (vs ws : List Value)
    (means : s.MeansAll h fs vs) (means' : s'.MeansAll h' fs ws) :
    List.Forall₂ (s.Matched h s' h') vs ws :=
  match fs with
  | [] => by
      unfold Scope.MeansAll at means means'
      rw [means, means']
      exact .nil
  | f :: fs => by
      unfold Scope.MeansAll at means means'
      obtain ⟨v, vs, rfl, first, rest⟩ := means
      obtain ⟨w, ws, rfl, first', rest'⟩ := means'
      exact .cons (twins.means f v w first first') (twins.meansAll fs vs ws rest rest')

theorem Twins.meansEach (twins : Twins s h s' h') (entries : List (Form × Form))
    (as bs : List (Value × Value)) (means : s.MeansEach h entries as)
    (means' : s'.MeansEach h' entries bs) :
    List.Forall₂ (fun a b => a.1.SameKey b.1 ∧ s.Matched h s' h' a.2 b.2) as bs :=
  match entries with
  | [] => by
      unfold Scope.MeansEach at means means'
      rw [means, means']
      exact .nil
  | (key, f) :: entries => by
      unfold Scope.MeansEach at means means'
      obtain ⟨k, v, as, rfl, at_key, first, rest⟩ := means
      obtain ⟨l, w, bs, rfl, at_key', first', rest'⟩ := means'
      refine .cons ⟨?_, twins.means f v w first first'⟩ (twins.meansEach entries as bs rest rest')
      exact at_key.same at_key' fun a b here there => (twins.means key a b here there).sameKey

end

section

variable (twins : Twins s h s' h')

include twins

theorem Twins.members {f : Form} {a b : Option MapId} (means : s.MeansMembers h f a)
    (means' : s'.MeansMembers h' f b) : h.MembersMatch h' (s.pairing s') a b := by
  rcases means with ⟨rfl, rfl⟩ | ⟨entries, id, rfl, means, rfl⟩
  · rcases means' with ⟨_, rfl⟩ | ⟨_, _, other, _⟩
    · exact .none
    · cases other
  · rcases means' with ⟨other, _⟩ | ⟨_, id', same, means', rfl⟩
    · cases other
    · cases same
      unfold Scope.Means at means means'
      obtain ⟨_, t, bindings, same, present, each, made⟩ := means
      obtain ⟨_, t', bindings', same', present', each', made'⟩ := means'
      cases same
      cases same'
      have matched := twins.meansEach entries bindings bindings' each each'
      refine .some ⟨t, t', present, present', Table.Match.of_bindings ?_ made made'⟩
      exact matched.imp fun a b here => ⟨here.1, here.2.alike⟩

theorem Twins.corresponds : h.Corresponds h' (s.pairing s') where
  toSameOutline := twins.outline
  consts i j p q paired present present' := by
    obtain ⟨p', q', shown, given, here, there, fits, fits'⟩ := twins.protos paired
    cases present.symm.trans here
    cases present'.symm.trans there
    obtain ⟨items, form, means⟩ := fits.consts
    obtain ⟨_, form', means'⟩ := fits'.consts
    cases form.symm.trans form'
    exact (twins.meansAll items _ _ means means').imp fun v w matched => matched.alike
  classMembers i j c d paired present present' := by
    obtain ⟨c', d', shown, given, here, there, fits, fits'⟩ := twins.classes paired
    cases present.symm.trans here
    cases present'.symm.trans there
    exact twins.members fits.members fits'.members
  moduleMembers i j m n paired present present' := by
    obtain ⟨m', n', shown, given, here, there, fits, fits'⟩ := twins.modules paired
    cases present.symm.trans here
    cases present'.symm.trans there
    exact twins.members fits.members fits'.members

end

end StaticImage.Snapshot
