import StaticImage.Proofs.Image.Taken
import StaticImage.Proofs.Image.WritingDeclarations

namespace StaticImage

def Instruction.Accesses (i : Instruction) (slot : Nat) : Prop :=
  (i.op? = some .getGlobal ∨ i.op? = some .setGlobal) ∧ i.bx = slot

theorem Instruction.globalAccess_eq_some_iff (i : Instruction) (slot : Nat) :
    i.globalAccess = some slot ↔ i.Accesses slot := by
  unfold globalAccess Accesses
  split
  · rename_i op
    simp [op]
  · rename_i op
    simp [op]
  · rename_i get set
    simp only [reduceCtorEq, false_iff, not_and]
    rintro (op | op) _
    · exact get op
    · exact set op

namespace Heap

def HasWord (h : Heap) (function : String) (i : Instruction) (pc : Nat) : Prop :=
  ∃ id p, h.proto? id = some p ∧ p.name = function ∧ p.code[pc]? = some i

/-- In front of each stop on account of a global there is its line, and in front of that the word
that reaches past the built-in globals. -/
def Announces (h : Heap) (trace : Trace) : Prop :=
  ∀ front rest slot function, trace = front ++ .stop (.global slot function) :: rest →
    ∃ before i pc, front = before ++ [.write (.codeWord i pc), .write (.foreignGlobal slot)] ∧
      h.HasWord function i pc ∧ i.Accesses slot ∧ h.builtins.length ≤ slot

theorem Announces.append {h : Heap} {first second : Trace} (left : h.Announces first)
    (right : h.Announces second) : h.Announces (first ++ second) := by
  intro front rest slot function split
  rcases List.append_eq_append_iff.mp split with ⟨middle, rfl, tail⟩ | ⟨middle, head, tail⟩
  · obtain ⟨before, i, pc, rfl, facts⟩ := right middle rest slot function tail
    exact ⟨first ++ before, i, pc, by rw [List.append_assoc], facts⟩
  · cases middle with
    | nil =>
        rw [List.append_nil] at head
        rw [List.nil_append] at tail
        obtain ⟨before, i, pc, empty, _⟩ := right [] rest slot function tail.symm
        simp at empty
    | cons step middle =>
        rw [List.cons_append, List.cons.injEq] at tail
        rw [← tail.1] at head
        exact left front middle slot function head

theorem announces_single {h : Heap} (step : Step)
    (other : ∀ slot function, step ≠ .stop (.global slot function)) : h.Announces [step] := by
  intro front rest slot function split
  cases front with
  | nil => exact (other slot function (List.cons.inj split).1).elim
  | cons first front =>
      have empty := (List.cons.inj split).2
      simp at empty

theorem Fault.ne_global {h : Heap} {root : Value} {why : DumpError} (blamed : h.Fault root why)
    (slot : Nat) (function : String) : why ≠ .global slot function := by
  rintro rfl
  cases blamed

theorem Writes.announces {h : Heap} {root : Value} {classes : List ClassId} {maps : List MapId}
    {trace : Trace} (writes : h.Writes root classes maps trace) : h.Announces trace := by
  induction writes with
  | nothing =>
      intro front rest slot function split
      simp at split
  | both _ _ _ _ _ _ left right => exact left.append right
  | step _ _ step plain =>
      refine announces_single step ?_
      rintro slot function rfl
      cases plain
  | word => exact announces_single _ fun _ _ => Step.noConfusion
  | foreign _ _ id p i pc slot present here access beyond =>
      intro front rest other function split
      have word : h.HasWord p.name i pc := ⟨id, p, present, rfl, here⟩
      have accesses := (i.globalAccess_eq_some_iff slot).mp access
      match front, split with
      | [_, _], split =>
          cases split
          exact ⟨[], i, pc, rfl, word, accesses, beyond⟩
      | _ :: _ :: _ :: front, split => simp at split
  | fault _ _ why blamed =>
      refine announces_single _ fun slot function same => ?_
      exact blamed.ne_global slot function (Step.stop.inj same)
  | insideMap _ _ id inner _ _ ih =>
      have opening : h.Announces [.openMap id] := announces_single _ fun _ _ => Step.noConfusion
      exact (opening.append ih).append (announces_single _ fun _ _ => Step.noConfusion)
  | insideClass _ _ id inner _ _ ih =>
      have opening : h.Announces [.openClass id] := announces_single _ fun _ _ => Step.noConfusion
      exact (opening.append ih).append (announces_single _ fun _ _ => Step.noConfusion)

theorem Writes.word_allowed {h : Heap} {root : Value} {classes : List ClassId} {maps : List MapId}
    {trace : Trace} (writes : h.Writes root classes maps trace) (complete : trace.Complete)
    (i : Instruction) (pc slot : Nat) (written : .write (.codeWord i pc) ∈ trace)
    (access : i.Accesses slot) : slot < h.builtins.length := by
  induction writes with
  | nothing => cases written
  | both _ _ _ _ _ _ left right =>
      obtain ⟨first, second⟩ := (Trace.complete_append _ _).mp complete
      rcases List.mem_append.mp written with here | there
      · exact left first here
      · exact right second there
  | step _ _ step plain =>
      rw [List.mem_singleton] at written
      rw [← written] at plain
      cases plain
  | word _ _ id p j _ present here allowed =>
      rw [List.mem_singleton] at written
      cases written
      exact allowed slot ((i.globalAccess_eq_some_iff slot).mpr access)
  | foreign _ _ id p j _ other present here _ beyond =>
      exact (complete (.global other p.name) (by simp)).elim
  | fault _ _ why blamed => exact (complete why List.mem_cons_self).elim
  | insideMap _ _ id inner _ _ ih =>
      exact ih (fun why member => complete why (by simp [member])) (by simpa using written)
  | insideClass _ _ id inner _ _ ih =>
      exact ih (fun why member => complete why (by simp [member])) (by simpa using written)

theorem text_announced (weak : Bool) (before : Trace) (i : Instruction) (pc slot : Nat) :
    String.ofList (Trace.spelling weak
        (before ++ [.write (.codeWord i pc), .write (.foreignGlobal slot)])) =
      String.ofList (before.spelling weak) ++ (Piece.codeWord i pc).render weak ++
        "\n===== unsupported global G" ++ toString slot ++ "\n" := by
  have line : (Piece.foreignGlobal slot).render weak =
      "\n===== unsupported global G" ++ toString slot ++ "\n" := rfl
  rw [Trace.spelling_append, String.ofList_append, Trace.spelling_cons, Trace.spelling_cons,
    Trace.spelling_nil, List.append_nil, String.ofList_append, Step.spelling, Step.spelling,
    String.ofList_toList, String.ofList_toList, line]
  simp only [String.append_assoc]

/-- A dump that comes to its end has written no code word that reaches a global past the built-in
ones; one that fails on such a global has written the word, of the prototype that it names, and
behind it the line with the slot. -/
theorem only_builtin_globals_are_written (h : Heap) (root : Value) (options : DumpOptions)
    (room : Option Nat) :
    let dumped := (h.dump root options room).1
    let steps := (h.rootPlan root options.context).taken options.weak room
    (dumped.error = none →
      dumped.bytes = (String.ofList (steps.spelling options.weak)).toUTF8.data.toList ∧
      ∀ i pc slot, .write (.codeWord i pc) ∈ steps → i.Accesses slot →
        slot < h.builtins.length) ∧
    ∀ slot function, dumped.error = some (.global slot function) →
      ∃ (before : Trace) (i : Instruction) (pc : Nat),
        steps = before ++ [.write (.codeWord i pc), .write (.foreignGlobal slot),
          .stop (.global slot function)] ∧
        dumped.bytes = (String.ofList (before.spelling options.weak) ++
          (Piece.codeWord i pc).render options.weak ++
          "\n===== unsupported global G" ++ toString slot ++ "\n").toUTF8.data.toList ∧
        h.HasWord function i pc ∧ i.Accesses slot ∧ h.builtins.length ≤ slot := by
  intro dumped steps
  have writes := h.writes_rootPlan root options.context
  constructor
  · intro success
    have all : steps = (h.rootPlan root options.context).trace :=
      Plan.taken_of_complete options.weak room _ success
    obtain ⟨complete, bytes⟩ := Plan.run_complete options.weak room _ success
    rw [all]
    exact ⟨bytes, fun i pc slot written access =>
      writes.word_allowed complete i pc slot written access⟩
  · intro slot function failed
    obtain ⟨front, rest, trace, taken, bytes⟩ :=
      Plan.taken_of_stopped options.weak room _ _ failed (by simp)
    obtain ⟨before, i, pc, rfl, word, accesses, beyond⟩ :=
      writes.announces front rest slot function trace
    refine ⟨before, i, pc, ?_, ?_, word, accesses, beyond⟩
    · have steps_eq : steps = _ := taken
      rw [steps_eq, List.append_assoc]
      rfl
    · have bytes_eq : dumped.bytes = _ := bytes
      rw [bytes_eq, text_announced]

end Heap

end StaticImage
