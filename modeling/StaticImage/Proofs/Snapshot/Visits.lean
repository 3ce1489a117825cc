import StaticImage.Proofs.Snapshot.Lowering

namespace StaticImage.Snapshot

open Load

structure Visit where
  expression : Located Expr
  heap : Heap

def evaluating : List String :=
  ["static", "map_instance", "list_instance"]

def Expr.asKey {α : Type} (key : Expr) (inner : List α) : List α :=
  match key with
  | .ref _ => []
  | _ => inner

mutual

/-- The expressions in an expression that are evaluated with it, itself first. -/
def Expr.evaluated (e : Expr) (span : Span) : List (Located Expr) :=
  ⟨e, span⟩ ::
    match e with
    | .call function [⟨argument, at_⟩] =>
      if function.value ∈ evaluating then argument.evaluated at_ else []
    | .list items => itemsEvaluated items
    | .map entries => entriesEvaluated entries
    | _ => []

def itemsEvaluated : List (Located Expr) → List (Located Expr)
  | [] => []
  | ⟨e, span⟩ :: items => e.evaluated span ++ itemsEvaluated items

def entriesEvaluated : List (Located Expr × Located Expr) → List (Located Expr)
  | [] => []
  | (⟨key, keySpan⟩, ⟨e, span⟩) :: entries =>
    key.asKey (key.evaluated keySpan) ++ (e.evaluated span ++ entriesEvaluated entries)

end

def following {α β : Type} (outcome : Except (Located Problem) (α × Heap))
    (next : Heap → List β) : List β :=
  match outcome with
  | .ok (_, h) => next h
  | .error _ => []

mutual

def visits (s : Scope) (e : Expr) (span : Span) (h : Heap) : List Visit :=
  ⟨⟨e, span⟩, h⟩ ::
    match e with
    | .call function [⟨argument, at_⟩] =>
      if function.value ∈ evaluating then visits s argument at_ h else []
    | .list items => itemVisits s items h
    | .map entries => entryVisits s entries h
    | _ => []

def itemVisits (s : Scope) : List (Located Expr) → Heap → List Visit
  | [], _ => []
  | ⟨e, span⟩ :: items, h =>
    visits s e span h ++ following (value s e span h) (itemVisits s items)

def entryVisits (s : Scope) : List (Located Expr × Located Expr) → Heap → List Visit
  | [], _ => []
  | (⟨key, keySpan⟩, ⟨e, span⟩) :: entries, h =>
    key.asKey (visits s key keySpan h) ++
      following (mapKey key keySpan (value s key keySpan) h) fun mid =>
        visits s e span mid ++ following (value s e span mid) (entryVisits s entries)

end

structure Keeps (h h' : Heap) : Prop where
  has : ∀ o, h.Has o → h'.Has o
  retains : Retains h h'

namespace Keeps

variable {h mid h' : Heap}

theorem refl (h : Heap) : Keeps h h :=
  ⟨fun _ has => has, fun o _ _ => .refl h o⟩

theorem trans (first : Keeps h mid) (second : Keeps mid h') : Keeps h h' :=
  ⟨fun o has => second.has o (first.has o has), fun o kind has =>
    (first.retains o kind has).trans (second.retains o kind (first.has o has))⟩

theorem of_changes {objects : List ObjectId} (changes : h.Changes objects h')
    (others : ∀ o ∈ objects, o.isAggregate = false) : Keeps h h' :=
  ⟨changes.has, .of_changes changes others⟩

theorem of_grows {order : List ObjectId} (grows : h.Grows order h') : Keeps h h' :=
  .of_changes grows.changes (by simp)

theorem known {s : Scope} (keeps : Keeps h h') (known : s.Known h) : s.Known h' :=
  fun name d declared o member => keeps.has o (known name d declared o member)

end Keeps

structure Visit.Settles (visit : Visit) (s : Scope) (final : Heap) : Prop where
  known : s.Known visit.heap
  run : ∃ v after, valueOf s visit.expression visit.heap = .ok (v, after) ∧ Keeps after final

structure Follows (s : Scope) (made : List Visit) (expressions : List (Located Expr))
    (final : Heap) : Prop where
  all : made.map Visit.expression = expressions
  settled : ∀ visit ∈ made, visit.Settles s final

namespace Follows

variable {s : Scope} {final : Heap} {made others : List Visit}
  {expressions rest : List (Located Expr)}

theorem nil : Follows s [] [] final :=
  ⟨rfl, nofun⟩

theorem append (first : Follows s made expressions final) (second : Follows s others rest final) :
    Follows s (made ++ others) (expressions ++ rest) final := by
  refine ⟨by rw [List.map_append, first.all, second.all], fun visit member => ?_⟩
  rcases List.mem_append.mp member with here | there
  · exact first.settled visit here
  · exact second.settled visit there

theorem cons {e : Expr} {span : Span} {v : Value} {h after : Heap} (known : s.Known h)
    (run : value s e span h = .ok (v, after)) (keeps : Keeps after final)
    (others : Follows s made expressions final) :
    Follows s (⟨⟨e, span⟩, h⟩ :: made) (⟨e, span⟩ :: expressions) final := by
  refine ⟨by rw [List.map_cons, others.all], fun visit member => ?_⟩
  rcases List.mem_cons.mp member with rfl | there
  · exact ⟨known, v, after, run, keeps⟩
  · exact others.settled visit there

theorem evaluated {e : Located Expr} (follows : Follows s made expressions final)
    (member : e ∈ expressions) : ∃ visit ∈ made, visit.expression = e ∧ visit.Settles s final := by
  rw [← follows.all] at member
  obtain ⟨visit, made, same⟩ := List.mem_map.mp member
  exact ⟨visit, made, same, follows.settled visit made⟩

theorem later {h : Heap} (follows : Follows s made expressions h) (keeps : Keeps h final) :
    Follows s made expressions final := by
  refine ⟨follows.all, fun visit member => ?_⟩
  obtain ⟨known, v, after, run, kept⟩ := follows.settled visit member
  exact ⟨known, v, after, run, kept.trans keeps⟩

theorem asKey {key : Expr} (inner : (∀ name, key ≠ .ref name) → Follows s made expressions final) :
    Follows s (key.asKey made) (key.asKey expressions) final := by
  cases key with
  | ref name => exact .nil
  | _ => exact inner fun name same => by cases same

end Follows

section

variable {s : Scope} {h h' : Heap}

theorem newList_keeps {items : List Value} {v : Value} (run : newList items h = .ok (v, h')) :
    Keeps h h' := by
  cases modifyGet_ok run
  exact .of_changes (h.allocates_list items).changes (by simp)

theorem newMap_keeps {t : Table} {v : Value} (run : newMap t h = .ok (v, h')) : Keeps h h' := by
  cases modifyGet_ok run
  exact .of_changes (h.allocates_table t).changes (by simp)

theorem newInstance_keeps {i : InstanceObject} {v : Value}
    (run : newInstance i h = .ok (v, h')) : Keeps h h' := by
  cases modifyGet_ok run
  exact .of_changes (h.allocates_instance i).changes (by simp)

theorem construct_evaluates {function : Located String} {argument : Located Expr}
    {inner : Load Value} {v : Value} (run : construct s function argument inner h = .ok (v, h'))
    (evaluates : function.value ∈ evaluating) :
    ∃ w mid, inner h = .ok (w, mid) ∧ Keeps mid h' := by
  simp only [evaluating, List.mem_cons, List.not_mem_nil, or_false] at evaluates
  unfold construct at run
  rcases evaluates with name | name | name <;> simp only [name] at run
  · obtain ⟨w, mid, evaluated, run⟩ := bind_ok run
    obtain ⟨_, rfl⟩ := pure_ok run
    exact ⟨w, mid, evaluated, .refl mid⟩
  · obtain ⟨w, mid, evaluated, run⟩ := bind_ok run
    cases data : w.data with
    | map =>
        simp only [data] at run
        exact ⟨w, mid, evaluated, newInstance_keeps run⟩
    | _ =>
        simp only [data] at run
        exact (mismatch_ok run).elim
  · obtain ⟨w, mid, evaluated, run⟩ := bind_ok run
    cases data : w.data with
    | list =>
        simp only [data] at run
        exact ⟨w, mid, evaluated, newInstance_keeps run⟩
    | _ =>
        simp only [data] at run
        exact (mismatch_ok run).elim

end

section

variable {s : Scope}

mutual

theorem value_visits (e : Expr) (span : Span) (v : Value) (h h' : Heap) (known : s.Known h)
    (run : value s e span h = .ok (v, h')) : Follows s (visits s e span h) (e.evaluated span) h' :=
  match e with
  | .nil | .bool _ | .int _ | .real _ | .string _ | .ref _ | .call _ [] | .call _ (_ :: _ :: _) => by
      unfold visits Expr.evaluated
      exact .cons known run (.refl h') .nil
  | .call function [⟨argument, at_⟩] => by
      unfold visits Expr.evaluated
      refine .cons known run (.refl h') ?_
      dsimp only
      split
      · rename_i evaluates
        obtain ⟨w, mid, evaluated, keeps⟩ := construct_evaluates run evaluates
        exact (value_visits argument at_ w h mid known evaluated).later keeps
      · exact .nil
  | .list items => by
      unfold visits Expr.evaluated
      refine .cons known run (.refl h') ?_
      obtain ⟨vs, mid, evaluated, made⟩ := bind_ok run
      exact (values_visits items vs h mid known evaluated).later (newList_keeps made)
  | .map entries => by
      unfold visits Expr.evaluated
      refine .cons known run (.refl h') ?_
      obtain ⟨t, mid, evaluated, made⟩ := bind_ok run
      exact (bindings_visits entries .empty t h mid known evaluated).later (newMap_keeps made)

theorem values_visits (items : List (Located Expr)) (vs : List Value) (h h' : Heap)
    (known : s.Known h) (run : values s items h = .ok (vs, h')) :
    Follows s (itemVisits s items h) (itemsEvaluated items) h' :=
  match items with
  | [] => .nil
  | ⟨e, span⟩ :: items => by
      obtain ⟨v, mid, first, run⟩ := bind_ok run
      obtain ⟨rest, _, others, run⟩ := bind_ok run
      obtain ⟨rfl, rfl⟩ := pure_ok run
      obtain ⟨order, grows, _⟩ := value_ok e span v h mid known first
      have still := known.mono grows.changes
      obtain ⟨later, further, _⟩ := values_ok items rest mid _ still others
      unfold itemVisits itemsEvaluated
      rw [first]
      exact ((value_visits e span v h mid known first).later (.of_grows further)).append
        (values_visits items rest mid _ still others)

theorem bindings_visits (entries : List (Located Expr × Located Expr)) (t u : Table) (h h' : Heap)
    (known : s.Known h) (run : bindings s t entries h = .ok (u, h')) :
    Follows s (entryVisits s entries h) (entriesEvaluated entries) h' :=
  match entries with
  | [] => .nil
  | (⟨key, keySpan⟩, ⟨e, span⟩) :: entries => by
      obtain ⟨k, mid, first, run⟩ := bind_ok run
      obtain ⟨v, mid', second, run⟩ := bind_ok run
      obtain ⟨next, _, bound, run⟩ := bind_ok run
      obtain ⟨rfl, old, inserted⟩ := bind_table_ok bound
      obtain ⟨order, grows, _⟩ := mapKey_ok first (value_ok key keySpan k h mid known)
      have still := known.mono grows.changes
      obtain ⟨more, further, _⟩ := value_ok e span v mid mid' still second
      have again := still.mono further.changes
      obtain ⟨later, rest, last, _⟩ := bindings_ok entries next u mid' h' again run
      unfold entryVisits entriesEvaluated
      rw [first]
      dsimp only [following]
      rw [second]
      refine Follows.append (.asKey fun other => ?_) ?_
      -- only a key that is no bare name was evaluated as a value
      · have evaluated : value s key keySpan h = .ok (k, mid) := by
          cases key with
          | ref name => exact (other name rfl).elim
          | nil => cases first
          | _ => exact first
        exact (value_visits key keySpan k h mid known evaluated).later
          ((Keeps.of_grows further).trans (.of_grows last))
      · exact ((value_visits e span v mid mid' still second).later (.of_grows last)).append
          (bindings_visits entries next u mid' h' again run)

end

end

end StaticImage.Snapshot
