import StaticImage.Proofs.Image.Spelling

namespace StaticImage

/-- The steps up to the first that fails, which is the last of them. -/
def Trace.taken (weak : Bool) : Trace → Progress → Trace
  | [], _ => []
  | step :: rest, p =>
    step :: if (p.take weak step).error.isSome then [] else Trace.taken weak rest (p.take weak step)

def Plan.taken (weak : Bool) (room : Option Nat) (plan : Plan) : Trace :=
  plan.trace.taken weak (.start room)

namespace Trace

theorem taken_failed (weak : Bool) (step : Step) (rest : Trace) (p : Progress)
    (failed : (p.take weak step).error.isSome) : taken weak (step :: rest) p = [step] := by
  rw [taken, if_pos failed]

theorem taken_onward (weak : Bool) (step : Step) (rest : Trace) (p : Progress)
    (onward : (p.take weak step).error = none) :
    taken weak (step :: rest) p = step :: taken weak rest (p.take weak step) := by
  rw [taken, if_neg (by simp [onward])]

theorem follow_failed (weak : Bool) (step : Step) (rest : Trace) (p : Progress)
    (failed : (p.take weak step).error.isSome) :
    follow weak (step :: rest) p = p.take weak step := by
  simp only [follow, if_pos failed]

theorem follow_onward (weak : Bool) (step : Step) (rest : Trace) (p : Progress)
    (onward : (p.take weak step).error = none) :
    follow weak (step :: rest) p = follow weak rest (p.take weak step) := by
  rw [follow, if_neg (by simp [onward])]

theorem taken_prefix (weak : Bool) (trace : Trace) (p : Progress) :
    trace.taken weak p <+: trace := by
  induction trace generalizing p with
  | nil => exact List.nil_prefix
  | cons step rest ih =>
      rw [taken, List.prefix_cons_inj]
      split
      · exact List.nil_prefix
      · exact ih _

/-- A dump does what the steps that it takes do. -/
theorem follow_eq_foldl_taken (weak : Bool) (trace : Trace) (p : Progress) :
    trace.follow weak p = (trace.taken weak p).foldl (Progress.take weak) p := by
  induction trace generalizing p with
  | nil => rfl
  | cons step rest ih =>
      cases failed : (p.take weak step).error with
      | some why =>
          have stopped : (p.take weak step).error.isSome := by simp [failed]
          rw [taken_failed weak step rest p stopped, follow_failed weak step rest p stopped]
          rfl
      | none =>
          rw [taken_onward weak step rest p failed, follow_onward weak step rest p failed,
            List.foldl_cons]
          exact ih _

end Trace

theorem Progress.take_failed (weak : Bool) (p : Progress) (step : Step) (why : DumpError)
    (unbroken : p.error = none) (failed : (p.take weak step).error = some why) :
    (step = .stop why ∧ (p.take weak step).written = p.written) ∨ why = .sink "full" := by
  obtain ⟨room, written, compacted, error, underway⟩ := p
  subst unbroken
  cases step with
  | stop reason =>
      cases failed
      exact Or.inl ⟨rfl, rfl⟩
  | write piece =>
      right
      cases room with
      | none => cases failed
      | some room =>
          simp only [take, send] at failed
          split at failed
          · cases failed
          · cases failed
            rfl
  | compact id => cases failed
  | openMap id => cases failed
  | closeMap id => cases failed
  | openClass id => cases failed
  | closeClass id => cases failed
  | function id => cases failed

namespace Trace

/-- A dump that the sink did not end took all steps before the stop that ended it, and wrote their
text. -/
theorem taken_stopped (weak : Bool) (trace : Trace) (p : Progress) (why : DumpError)
    (unbroken : p.error = none) (stopped : (trace.follow weak p).error = some why)
    (other : why ≠ .sink "full") :
    ∃ front rest : Trace, trace = front ++ .stop why :: rest ∧
      trace.taken weak p = front ++ [.stop why] ∧
      (trace.follow weak p).written = p.written ++ (String.ofList (front.spelling weak)).toUTF8 := by
  induction trace generalizing p with
  | nil =>
      rw [follow, unbroken] at stopped
      cases stopped
  | cons step rest ih =>
      cases failed : (p.take weak step).error with
      | some reason =>
          have ended : (p.take weak step).error.isSome := by simp [failed]
          rw [follow_failed weak step rest p ended] at stopped ⊢
          rw [taken_failed weak step rest p ended]
          rcases p.take_failed weak step why unbroken stopped with ⟨rfl, written⟩ | full
          · exact ⟨[], rest, rfl, rfl, by simp [written]⟩
          · exact (other full).elim
      | none =>
          rw [follow_onward weak step rest p failed] at stopped ⊢
          rw [taken_onward weak step rest p failed]
          obtain ⟨front, tail, rfl, taken, written⟩ := ih _ failed stopped
          refine ⟨step :: front, tail, rfl, by rw [taken, List.cons_append], ?_⟩
          rw [written, (p.take_complete weak step failed).2, spelling_cons, String.ofList_append]
          simp [ByteArray.append_assoc]

theorem taken_complete (weak : Bool) (trace : Trace) (p : Progress)
    (unbroken : (trace.follow weak p).error = none) : trace.taken weak p = trace := by
  induction trace generalizing p with
  | nil => rfl
  | cons step rest ih =>
      cases failed : (p.take weak step).error with
      | some why =>
          rw [follow_failed weak step rest p (by simp [failed]), failed] at unbroken
          cases unbroken
      | none =>
          rw [follow_onward weak step rest p failed] at unbroken
          rw [taken_onward weak step rest p failed, ih _ unbroken]

end Trace

namespace Plan

theorem taken_of_complete (weak : Bool) (room : Option Nat) (plan : Plan)
    (unbroken : (plan.run weak room).error = none) : plan.taken weak room = plan.trace := by
  rw [run_eq_outcome] at unbroken
  exact Trace.taken_complete weak plan.trace _ unbroken

theorem taken_of_stopped (weak : Bool) (room : Option Nat) (plan : Plan) (why : DumpError)
    (stopped : (plan.run weak room).error = some why) (other : why ≠ .sink "full") :
    ∃ front rest : Trace, plan.trace = front ++ .stop why :: rest ∧
      plan.taken weak room = front ++ [.stop why] ∧
      (plan.run weak room).bytes =
        (String.ofList (front.spelling weak)).toUTF8.data.toList := by
  rw [run_eq_outcome] at stopped ⊢
  obtain ⟨front, rest, trace, taken, written⟩ :=
    Trace.taken_stopped weak plan.trace _ why rfl stopped other
  refine ⟨front, rest, trace, taken, ?_⟩
  rw [DumpOutcome.bytes, Progress.outcome, written]
  simp [Progress.start]

theorem stop_mem_trace (weak : Bool) (room : Option Nat) (plan : Plan) (why : DumpError)
    (stopped : (plan.run weak room).error = some why) (other : why ≠ .sink "full") :
    Step.stop why ∈ plan.trace := by
  obtain ⟨front, rest, trace, _⟩ := plan.taken_of_stopped weak room why stopped other
  rw [trace]
  exact List.mem_append_right front List.mem_cons_self

end Plan

end StaticImage
