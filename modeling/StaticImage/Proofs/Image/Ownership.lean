import StaticImage.Proofs.Image.ClosureSymbols

/-!
Which walk writes a function. The name in force tells classes with different names apart, so a function
that was compiled in a class is written by the walk over the members of that class alone, while no
other class is being written inside it; wherever else the closure is met it is borrowed.
-/

namespace StaticImage

theorem classContext_injective (left right : String)
    (same : classContext left = classContext right) : left = right := by
  have chars := congrArg String.toList same
  simp only [classContext, String.toList_append] at chars
  exact String.toList_inj.mp (List.append_cancel_left chars)

namespace Heap

variable {h : Heap}

def NamesApart (h : Heap) : Prop :=
  (h.classes.toList.map ClassObject.name).Nodup

theorem NamesApart.unique (apart : h.NamesApart) (left right : ClassId) (name : String)
    (here : h.className? left = some name) (there : h.className? right = some name) :
    left = right := by
  obtain ⟨i⟩ := left
  obtain ⟨j⟩ := right
  have named (k : Nat) (found : h.className? ⟨k⟩ = some name) :
      (h.classes.toList.map ClassObject.name)[k]? = some name := by
    simpa [className?, class?] using found
  obtain ⟨i_bound, i_name⟩ := List.getElem?_eq_some_iff.mp (named i here)
  obtain ⟨j_bound, j_name⟩ := List.getElem?_eq_some_iff.mp (named j there)
  exact congrArg ClassId.mk (apart.getElem_inj_iff.mp (i_name.trans j_name.symm))

/-- Under the name of a class its own functions are written, and those of no class. -/
theorem isWritten_class_iff (apart : h.NamesApart) (cls : ClassId) (name : String)
    (called : h.className? cls = some name) (p : Prototype) :
    h.isWritten (some (classContext name)) p = true ↔ p.owner = none ∨ p.owner = some cls := by
  unfold isWritten
  cases owned : p.owner with
  | none => simp
  | some owner =>
      simp only [Option.any_eq_true, decide_eq_true_eq, Option.some.injEq, reduceCtorEq, false_or]
      constructor
      · rintro ⟨other, here, same⟩
        rw [← classContext_injective name other same] at here
        exact apart.unique owner cls name here called
      · rintro rfl
        exact ⟨name, called, rfl⟩

theorem isWritten_none_iff (p : Prototype) : h.isWritten none p = true ↔ p.owner = none := by
  unfold isWritten
  cases p.owner <;> simp

theorem Belongs.owner {root : Value} {context : Option String} {opened : List ClassId}
    {id : ClosureId} {p : Prototype} (belongs : h.Belongs root context opened id p)
    (apart : h.NamesApart) (other : ∀ id, root.data ≠ .closure id) (cls : ClassId)
    (owned : p.owner = some cls) : opened.head? = some cls ∧ id ∈ h.methods cls := by
  have written := belongs.written
  -- The name in force is that of the innermost class; with none around, there is no name.
  cases opened with
  | nil =>
      have unnamed : h.contextIn root context [] = none := by
        rw [contextIn]
        split
        · exact (other _ ‹_›).elim
        · rfl
      rw [unnamed, isWritten_none_iff, owned] at written
      cases written
  | cons innermost around =>
      cases called : h.className? innermost with
      | none =>
          rw [contextIn, called, Option.map_none, isWritten_none_iff, owned] at written
          cases written
      | some name =>
          rw [contextIn, called, Option.map_some, isWritten_class_iff apart innermost name called,
            owned] at written
          obtain rfl : cls = innermost := by simpa using written
          exact ⟨rfl, belongs.met⟩

end Heap

end StaticImage
