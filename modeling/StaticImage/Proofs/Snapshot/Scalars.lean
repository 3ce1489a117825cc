import Mathlib.Data.List.Forall2
import StaticImage.Proofs.Snapshot.Form

namespace StaticImage.Snapshot

namespace Load

variable {α β : Type} {h h' : Heap}

theorem bind_ok {m : Load α} {next : α → Load β} {b : β} (run : (m >>= next) h = .ok (b, h')) :
    ∃ a mid, m h = .ok (a, mid) ∧ next a mid = .ok (b, h') := by
  change (m h >>= fun p => next p.1 p.2) = .ok (b, h') at run
  cases first : m h with
  | error problem =>
      rw [first] at run
      cases run
  | ok p =>
      rw [first] at run
      exact ⟨p.1, p.2, rfl, run⟩

theorem pure_ok {a b : α} (run : (pure a : Load α) h = .ok (b, h')) : a = b ∧ h = h' := by
  cases run
  exact ⟨rfl, rfl⟩

theorem fail_ok {p : Problem} {span : Span} {b : α} :
    ¬ (fail p span : Load α) h = .ok (b, h') := by
  rintro ⟨⟩

theorem mismatch_ok {expected : String} {e : Located Expr} {b : α} :
    ¬ (mismatch expected e : Load α) h = .ok (b, h') :=
  fail_ok

theorem modify_ok {f : Heap → Heap} {u : Unit} (run : (modify f : Load Unit) h = .ok (u, h')) :
    f h = h' := by
  cases run
  rfl

theorem modifyGet_ok {f : Heap → α × Heap} {a : α}
    (run : (modifyGet f : Load α) h = .ok (a, h')) : f h = (a, h') :=
  Except.ok.inj run

theorem mapM_ok {f : α → Load β} (relation : α → β → Prop)
    (each : ∀ a b (h h' : Heap), f a h = .ok (b, h') → h = h' ∧ relation a b) {xs : List α}
    {ys : List β} (run : xs.mapM f h = .ok (ys, h')) : h = h' ∧ List.Forall₂ relation xs ys := by
  induction xs generalizing ys with
  | nil =>
      rw [List.mapM_nil] at run
      obtain ⟨rfl, same⟩ := pure_ok run
      exact ⟨same, .nil⟩
  | cons x xs ih =>
      rw [List.mapM_cons] at run
      obtain ⟨y, _, first, run⟩ := bind_ok run
      obtain ⟨others, _, rest, run⟩ := bind_ok run
      obtain ⟨rfl, rfl⟩ := pure_ok run
      obtain ⟨rfl, here⟩ := each _ _ _ _ first
      obtain ⟨rfl, there⟩ := ih rest
      exact ⟨rfl, .cons here there⟩

end Load

open Load

variable {h h' : Heap} {s : Scope} {e : Located Expr}

theorem intOf_ok {n : Int} (run : intOf e h = .ok (n, h')) :
    h = h' ∧ e.value.form = .int n := by
  obtain ⟨e, span⟩ := e
  cases e with
  | int m =>
      obtain ⟨rfl, same⟩ := pure_ok run
      exact ⟨same, rfl⟩
  | _ => exact (mismatch_ok run).elim

theorem byteOf_ok {x : UInt8} (run : byteOf e h = .ok (x, h')) :
    h = h' ∧ e.value.form = .int x.toNat := by
  obtain ⟨n, _, read, run⟩ := bind_ok run
  obtain ⟨rfl, form⟩ := intOf_ok read
  split at run
  · rename_i fits
    obtain ⟨rfl, same⟩ := pure_ok run
    have small : n.toNat < UInt8.size := by omega
    exact ⟨same, by rw [UInt8.toNat_ofNat_of_lt' small, form, Int.toNat_of_nonneg fits.1]⟩
  · exact (fail_ok run).elim

theorem wordOf_ok {x : UInt32} (run : wordOf e h = .ok (x, h')) :
    h = h' ∧ e.value.form = .int x.toNat := by
  obtain ⟨n, _, read, run⟩ := bind_ok run
  obtain ⟨rfl, form⟩ := intOf_ok read
  split at run
  · rename_i fits
    obtain ⟨rfl, same⟩ := pure_ok run
    have small : n.toNat < UInt32.size := by omega
    exact ⟨same, by rw [UInt32.toNat_ofNat_of_lt' small, form, Int.toNat_of_nonneg fits.1]⟩
  · exact (fail_ok run).elim

theorem hostIntOf_ok {n : Int} (run : hostIntOf s e h = .ok (n, h')) :
    h = h' ∧ e.value.form = .int n := by
  obtain ⟨m, _, read, run⟩ := bind_ok run
  obtain ⟨rfl, form⟩ := intOf_ok read
  split at run
  · obtain ⟨rfl, same⟩ := pure_ok run
    exact ⟨same, form⟩
  · exact (fail_ok run).elim

theorem stringOf_ok {x : String} (run : stringOf e h = .ok (x, h')) :
    h = h' ∧ e.value.form = .string x := by
  obtain ⟨e, span⟩ := e
  cases e with
  | string content =>
      obtain ⟨rfl, same⟩ := pure_ok run
      exact ⟨same, rfl⟩
  | _ => exact (mismatch_ok run).elim

theorem nameOf_ok {x : String} (run : nameOf e h = .ok (x, h')) :
    h = h' ∧ e.value.form.name? = some x := by
  obtain ⟨e, span⟩ := e
  cases e with
  | string content =>
      obtain ⟨rfl, same⟩ := pure_ok run
      exact ⟨same, rfl⟩
  | ref name =>
      obtain ⟨rfl, same⟩ := pure_ok run
      exact ⟨same, rfl⟩
  | _ => exact (mismatch_ok run).elim

theorem listOf_ok {items : List (Located Expr)} (run : listOf e h = .ok (items, h')) :
    h = h' ∧ e.value = .list items := by
  obtain ⟨e, span⟩ := e
  cases e with
  | list others =>
      obtain ⟨rfl, same⟩ := pure_ok run
      exact ⟨same, rfl⟩
  | _ => exact (mismatch_ok run).elim

theorem resolve_ok {name : String} {d : Declared} (run : resolve s e h = .ok ((name, d), h')) :
    h = h' ∧ e.value.form = .ref name ∧ s.names.lookup name = some d := by
  obtain ⟨e, span⟩ := e
  cases e with
  | ref other =>
      dsimp only [resolve] at run
      cases found : s.names.lookup other with
      | none =>
          rw [found] at run
          exact (fail_ok run).elim
      | some there =>
          rw [found] at run
          obtain ⟨pair, same⟩ := pure_ok run
          cases pair
          exact ⟨same, rfl, found⟩
  | _ => exact (mismatch_ok run).elim

theorem protoRef_ok {id : ProtoId} (run : protoRef s e h = .ok (id, h')) :
    h = h' ∧ s.NamesProto e.value.form id := by
  obtain ⟨⟨name, d⟩, _, read, run⟩ := bind_ok run
  obtain ⟨rfl, form, found⟩ := resolve_ok read
  cases d with
  | proto other =>
      obtain ⟨rfl, same⟩ := pure_ok run
      exact ⟨same, name, form, found⟩
  | _ => exact (fail_ok run).elim

theorem classRef_ok {id? : Option ClassId} (run : classRef s e h = .ok (id?, h')) :
    h = h' ∧ s.NamesClass e.value.form id? := by
  obtain ⟨e, span⟩ := e
  cases e with
  | nil =>
      obtain ⟨rfl, same⟩ := pure_ok run
      exact ⟨same, Or.inl ⟨rfl, rfl⟩⟩
  | ref other =>
      obtain ⟨⟨name, d⟩, _, read, run⟩ := bind_ok run
      obtain ⟨rfl, form, found⟩ := resolve_ok read
      cases d with
      | classItem id =>
          obtain ⟨rfl, same⟩ := pure_ok run
          exact ⟨same, Or.inr ⟨name, id, form, found, rfl⟩⟩
      | _ => exact (fail_ok run).elim
  | _ =>
      obtain ⟨_, _, read, _⟩ := bind_ok run
      exact (mismatch_ok read).elim

theorem reference_ok {v : Value} (run : reference s e h = .ok (v, h')) :
    h = h' ∧ ∃ name d, e.value.form = .ref name ∧ s.names.lookup name = some d ∧
      d.value? = some v := by
  obtain ⟨⟨name, d⟩, _, read, run⟩ := bind_ok run
  obtain ⟨rfl, form, found⟩ := resolve_ok read
  cases means : d.value? with
  | none =>
      simp only [means] at run
      exact (fail_ok run).elim
  | some w =>
      simp only [means] at run
      obtain ⟨rfl, same⟩ := pure_ok run
      exact ⟨same, name, d, form, found, means⟩

theorem realOf_ok {literal : String} {span : Span} {v : Value}
    (run : realOf s literal span h = .ok (v, h')) :
    h = h' ∧ ∃ r, s.host.format.read? literal = some r ∧ v = .plain (.real r) := by
  unfold realOf at run
  cases read : s.host.format.read? literal with
  | none =>
      rw [read] at run
      exact (fail_ok run).elim
  | some r =>
      rw [read] at run
      obtain ⟨rfl, same⟩ := pure_ok run
      exact ⟨same, r, rfl, rfl⟩

theorem upvalue_ok {u : Upvalue} (run : upvalue e h = .ok (u, h')) :
    h = h' ∧ e.value.form.IsUpvalue u := by
  obtain ⟨items, _, read, run⟩ := bind_ok run
  obtain ⟨rfl, list⟩ := listOf_ok read
  have pair (flag index : Located Expr) (inStack : Bool) (both : items = [flag, index])
      (flagged : flag.value.form = .bool inStack ∨ flag.value.form = .int inStack.toNat)
      (run : (do
        let inStack ← pure inStack
        let x ← byteOf index
        pure ⟨inStack, x⟩ : Load Upvalue) h = .ok (u, h')) : h = h' ∧ e.value.form.IsUpvalue u := by
    obtain ⟨_, _, same, run⟩ := bind_ok run
    obtain ⟨rfl, rfl⟩ := pure_ok same
    obtain ⟨x, _, number, run⟩ := bind_ok run
    obtain ⟨rfl, form⟩ := byteOf_ok number
    obtain ⟨rfl, same⟩ := pure_ok run
    refine ⟨same, flag.value.form, ?_, flagged⟩
    rw [list, both, Expr.form, formsOf_eq_map, List.map_cons, List.map_cons, List.map_nil, form]
  rcases items with _ | ⟨⟨flag, span⟩, _ | ⟨index, _ | ⟨third, rest⟩⟩⟩
  case cons.cons.nil =>
    cases flag with
    | bool b => exact pair _ index b rfl (Or.inl rfl) run
    | int n =>
        rcases n with (_ | _ | n) | n
        · exact pair _ index false rfl (Or.inr rfl) run
        · exact pair _ index true rfl (Or.inr rfl) run
        · obtain ⟨_, _, read, _⟩ := bind_ok run
          exact (mismatch_ok read).elim
        · obtain ⟨_, _, read, _⟩ := bind_ok run
          exact (mismatch_ok read).elim
    | _ =>
        obtain ⟨_, _, read, _⟩ := bind_ok run
        exact (mismatch_ok read).elim
  all_goals exact (mismatch_ok run).elim

end StaticImage.Snapshot
