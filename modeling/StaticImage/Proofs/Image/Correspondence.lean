import StaticImage.Proofs.Image.Agreement
import StaticImage.Proofs.Image.FunctionTree

/-!
Heaps that correspond. Objects of one heap are paired with objects of another that have the same
fields, references to objects that are paired, and values that are written alike. Numbers of objects
play no part in what is written, so dumps of objects that are paired agree.
-/

namespace StaticImage

abbrev Pairing := ObjectId → ObjectId → Prop

structure Prototype.Like (pairs : Pairing) (p q : Prototype) : Prop where
  name : p.name = q.name
  nstack : p.nstack = q.nstack
  argc : p.argc = q.argc
  varg : p.varg = q.varg
  upvalues : p.upvalues = q.upvalues
  protos : List.Forall₂ (fun i j => pairs (.proto i) (.proto j)) p.protos q.protos
  owner : Option.Rel (fun i j => pairs (.classObject i) (.classObject j)) p.owner q.owner
  code : p.code = q.code

structure Closure.Like (pairs : Pairing) (c d : Closure) : Prop where
  proto : pairs (.proto c.proto) (.proto d.proto)
  captured : c.captured.isEmpty = d.captured.isEmpty

structure ClassObject.Like (pairs : Pairing) (c d : ClassObject) : Prop where
  name : c.name = d.name
  nvar : c.nvar = d.nvar
  super : Option.Rel (fun i j => pairs (.classObject i) (.classObject j)) c.super d.super

namespace Heap

/-- What is paired has the same fields, but for constants and members. -/
structure SameOutline (h g : Heap) (pairs : Pairing) : Prop where
  protos : ∀ i j, pairs (.proto i) (.proto j) →
    Option.Rel (Prototype.Like pairs) (h.proto? i) (g.proto? j)
  closures : ∀ i j, pairs (.closure i) (.closure j) →
    Option.Rel (Closure.Like pairs) (h.closureAt? i) (g.closureAt? j)
  classes : ∀ i j, pairs (.classObject i) (.classObject j) →
    Option.Rel (ClassObject.Like pairs) (h.class? i) (g.class? j)
  modules : ∀ i j, pairs (.moduleObject i) (.moduleObject j) →
    Option.Rel (fun m n => m.name = n.name) (h.module? i) (g.module? j)
  unique : ∀ i i' j j', pairs (.classObject i) (.classObject j) →
    pairs (.classObject i') (.classObject j') → (i = i' ↔ j = j')
  builtins : h.builtins.length = g.builtins.length

/-- Values that are written alike and lead to closures and classes that are paired. -/
structure Alike (h g : Heap) (pairs : Pairing) (v w : Value) : Prop where
  written : h.WrittenAlike g v w
  closure : Option.Rel (fun i j => pairs (.closure i) (.closure j)) v.closure? w.closure?
  classObject : Option.Rel (fun i j => pairs (.classObject i) (.classObject j)) v.class? w.class?

def Tables (h g : Heap) (R : Table → Table → Prop) (i j : MapId) : Prop :=
  ∃ t u, h.table? i = some t ∧ g.table? j = some u ∧ R t u

abbrev MembersMatch (h g : Heap) (pairs : Pairing) : Option MapId → Option MapId → Prop :=
  Option.Rel (h.Tables g (Table.Match (h.Alike g pairs)))

structure Corresponds (h g : Heap) (pairs : Pairing) : Prop extends h.SameOutline g pairs where
  consts : ∀ i j p q, pairs (.proto i) (.proto j) → h.proto? i = some p → g.proto? j = some q →
    List.Forall₂ (h.Alike g pairs) p.consts q.consts
  classMembers : ∀ i j c d, pairs (.classObject i) (.classObject j) → h.class? i = some c →
    g.class? j = some d → h.MembersMatch g pairs c.members d.members
  moduleMembers : ∀ i j m n, pairs (.moduleObject i) (.moduleObject j) → h.module? i = some m →
    g.module? j = some n → h.MembersMatch g pairs m.members n.members

open Trace (Agree)

variable {h g : Heap} {pairs : Pairing}

section

variable (outline : h.SameOutline g pairs)

include outline

theorem SameOutline.className? {i j : ClassId} (paired : pairs (.classObject i) (.classObject j)) :
    h.className? i = g.className? j := by
  have classes := outline.classes i j paired
  rw [Heap.className?, Heap.className?]
  generalize h.class? i = c, g.class? j = d at classes
  cases classes with
  | none => rfl
  | some like => exact congrArg some like.name

theorem SameOutline.ownerName {i j : Option ClassId}
    (paired : Option.Rel (fun i j => pairs (.classObject i) (.classObject j)) i j) :
    i.map h.className? = j.map g.className? := by
  cases paired with
  | none => rfl
  | some paired => exact congrArg some (outline.className? paired)

theorem SameOutline.closureConstant {i j : ClosureId} (paired : pairs (.closure i) (.closure j))
    (isStatic : Bool) : h.closureConstant isStatic i = g.closureConstant isStatic j := by
  have closures := outline.closures i j paired
  rw [Heap.closureConstant, Heap.closureConstant]
  generalize h.closureAt? i = c, g.closureAt? j = d at closures
  cases closures with
  | none => rfl
  | @some c d like =>
      have protos := outline.protos _ _ like.proto
      simp only [Option.bind_some]
      generalize h.proto? c.proto = p, g.proto? d.proto = q at protos
      cases protos with
      | none => rfl
      | @some p q like =>
          have owners := like.owner
          dsimp only
          rw [like.name]
          generalize p.owner = owner, q.owner = owner' at owners
          cases owners with
          | none => rfl
          | some paired =>
              dsimp only
              rw [outline.className? paired]

end

theorem zipIdx_related {α β : Type} {R : α → β → Prop} {xs : List α} {ys : List β}
    (related : List.Forall₂ R xs ys) (start : Nat) :
    List.Forall₂ (fun a b => R a.1 b.1 ∧ a.2 = b.2) (xs.zipIdx start) (ys.zipIdx start) := by
  induction related generalizing start with
  | nil => exact .nil
  | cons here _ ih => exact .cons ⟨here, rfl⟩ (ih (start + 1))

section functions

open FunctionImage

theorem consts_agree (pad : String) {vs ws : List Value}
    (alike : List.Forall₂ (h.Alike g pairs) vs ws) :
    Agree (constsPlan pad (vs.map h.constant)).trace
      (constsPlan pad (ws.map g.constant)).trace := by
  have related : List.Forall₂ (fun c d => ∀ context key,
      Agree (c.plan context key).trace (d.plan context key).trace)
      (vs.map h.constant) (ws.map g.constant) := by
    rw [List.forall₂_map_left_iff, List.forall₂_map_right_iff]
    exact alike.imp fun v w here context key => here.written context key _ _ [] []
  have length := related.length_eq
  generalize vs.map h.constant = consts, ws.map g.constant = consts' at related length
  cases related with
  | nil => exact .refl _
  | @cons c d consts consts' here rest =>
      have all := zipIdx_related (List.Forall₂.cons here rest) 0
      refine .andThen (.refl _) (.andThen ?_ (.andThen (.each all ?_) (.refl _)))
      · rw [length]
        exact .refl _
      · rintro ⟨c, k⟩ ⟨d, k'⟩ ⟨same, rfl⟩
        exact .andThen (.refl _) (.andThen (same none none) (.refl _))

theorem nested_agree (builtins : Nat) (pad : String) (column : Nat) (owner : Option String)
    {fs fs' : List (Unit → FunctionImage MapId)}
    (each : List.Forall₂ (fun f f' => Agree (plan builtins (column + 4) (f ())).trace
      (plan builtins (column + 4) (f' ())).trace) fs fs') :
    Agree (nestedField builtins pad column owner fs).trace
      (nestedField builtins pad column owner fs').trace := by
  have length := each.length_eq
  have nested : Agree (nestedPlan builtins (column + 4) fs).trace
      (nestedPlan builtins (column + 4) fs').trace := by
    rw [trace_nestedPlan, trace_nestedPlan]
    exact .each each fun f f' here => .andThen here (.refl _)
  cases each with
  | nil => exact .refl _
  | cons here rest =>
      refine .andThen ?_ (.andThen nested (.refl _))
      rw [length]
      exact .refl _

theorem node_agrees (builtins column : Nat) (header : FunctionHeader)
    {fs fs' : List (Unit → FunctionImage MapId)} {vs ws : List Value}
    (each : List.Forall₂ (fun f f' => Agree (plan builtins (column + 4) (f ())).trace
      (plan builtins (column + 4) (f' ())).trace) fs fs')
    (alike : List.Forall₂ (h.Alike g pairs) vs ws) :
    Agree
      (plan builtins column (.node header.name header.nstack header.argc header.varg
        header.upvalues header.owner fs (vs.map h.constant) header.code)).trace
      (plan builtins column (.node header.name header.nstack header.argc header.varg
        header.upvalues header.owner fs' (ws.map g.constant) header.code)).trace := by
  have empty : fs.isEmpty = fs'.isEmpty := by
    cases each with
    | nil => rfl
    | cons => rfl
  rw [plan_node, plan_node, empty]
  exact .andThen (.refl _) (.andThen (.refl _) (.andThen (.refl _)
    (.andThen (nested_agree builtins _ column header.owner each)
      (.andThen (consts_agree _ alike) (.refl _)))))

variable (corresponds : h.Corresponds g pairs)

include corresponds

theorem unfoldProto_agree (column nesting nesting' : Nat) (opened opened' : List ProtoId)
    (i j : ProtoId) (paired : pairs (.proto i) (.proto j)) :
    Agree (plan h.builtins.length column (h.unfoldProto nesting opened i)).trace
      (plan g.builtins.length column (g.unfoldProto nesting' opened' j)).trace := by
  induction nesting generalizing column nesting' opened opened' i j with
  | zero => exact Agree.cut_left .endless rfl
  | succ nesting ih =>
      cases nesting' with
      | zero => exact Agree.cut_right .endless rfl
      | succ nesting' =>
          simp only [unfoldProto]
          by_cases again : i ∈ opened
          · rw [if_pos again]
            exact Agree.cut_left .endless rfl
          · by_cases again' : j ∈ opened'
            · rw [if_pos again']
              exact Agree.cut_right .endless rfl
            · rw [if_neg again, if_neg again']
              have protos := corresponds.protos i j paired
              have consts := corresponds.consts i j
              generalize h.proto? i = p, g.proto? j = q at protos consts
              cases protos with
              | none => exact .refl _
              | @some p q like =>
                  have alike := consts p q paired rfl rfl
                  have inside : List.Forall₂ (fun f f' =>
                      Agree (plan g.builtins.length (column + 4) (f ())).trace
                        (plan g.builtins.length (column + 4) (f' ())).trace)
                      (p.protos.map fun inner _ => h.unfoldProto nesting (i :: opened) inner)
                      (q.protos.map fun inner _ =>
                        g.unfoldProto nesting' (j :: opened') inner) := by
                    rw [List.forall₂_map_left_iff, List.forall₂_map_right_iff]
                    refine like.protos.imp fun inner inner' paired => ?_
                    rw [← corresponds.builtins]
                    have nested := ih (column + 4) nesting' (i :: opened) (j :: opened') _ _ paired
                    rwa [← corresponds.builtins] at nested
                  have node (owner : Option String) :=
                    node_agrees g.builtins.length column (q.header owner) inside alike
                  dsimp only
                  rw [corresponds.ownerName like.owner, corresponds.builtins, like.name,
                    like.nstack, like.argc, like.varg, like.upvalues, like.code]
                  rcases q.owner.map g.className? with _ | _ | name
                  · exact node none
                  · exact .refl _
                  · exact node (some name)

theorem function_agrees (column : Nat) (i j : ProtoId) (paired : pairs (.proto i) (.proto j)) :
    Agree (plan h.builtins.length column (h.function i)).trace
      (plan g.builtins.length column (g.function j)).trace :=
  unfoldProto_agree corresponds column _ _ [] [] i j paired

end functions

end Heap

end StaticImage
