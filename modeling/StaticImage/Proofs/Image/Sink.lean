import StaticImage.Proofs.Image.Taken

/-!
Sinks that come to an end. A dump into such a sink does what it does into one without an end, up to
the first write that does not fit; the sink then holds the bytes that it takes of the whole text, and
the dump fails there with nothing else behind.
-/

namespace StaticImage

namespace Progress

def within (p : Progress) (total : Nat) : Progress :=
  { p with room := some (total - p.written.size) }

structure Onward (p q : Progress) : Prop where
  room : q.room = none
  written : ∃ more, q.written = p.written ++ more
  compacted : p.compacted <:+ q.compacted

structure Cut (total : Nat) (whole cut : Progress) : Prop where
  error : cut.error = some (.sink "full")
  written : cut.written = whole.written.extract 0 total
  compacted : cut.compacted <:+ whole.compacted

namespace Onward

theorem refl {p : Progress} (endless : p.room = none) : p.Onward p :=
  ⟨endless, ⟨.empty, by simp⟩, List.suffix_refl _⟩

theorem trans {p q r : Progress} (first : p.Onward q) (second : q.Onward r) : p.Onward r := by
  obtain ⟨more, written⟩ := first.written
  obtain ⟨rest, whole⟩ := second.written
  refine ⟨second.room, ⟨more ++ rest, ?_⟩, first.compacted.trans second.compacted⟩
  rw [whole, written, ByteArray.append_assoc]

/-- What a full sink holds does not depend on how the dump would have gone on. -/
theorem extract {p q : Progress} (onward : p.Onward q) {total : Nat}
    (full : total ≤ p.written.size) : q.written.extract 0 total = p.written.extract 0 total := by
  obtain ⟨more, written⟩ := onward.written
  have nothing : total - p.written.size = 0 := by omega
  rw [written, ByteArray.extract_append, nothing, Nat.zero_sub]
  simp

end Onward

variable (weak : Bool) (p : Progress) (step : Step) (total : Nat)

theorem take_onward (endless : p.room = none) : p.Onward (p.take weak step) := by
  obtain ⟨room, written, compacted, error, underway⟩ := p
  subst endless
  cases step with
  | write piece => exact ⟨rfl, ⟨_, rfl⟩, List.suffix_refl _⟩
  | compact id => exact ⟨rfl, ⟨.empty, by simp [take]⟩, List.suffix_cons id compacted⟩
  | _ => exact ⟨rfl, ⟨.empty, by simp [take]⟩, List.suffix_refl _⟩

theorem take_within (endless : p.room = none)
    (fits : (p.take weak step).written.size ≤ total) :
    (p.within total).take weak step = (p.take weak step).within total := by
  obtain ⟨room, written, compacted, error, underway⟩ := p
  subst endless
  cases step with
  | write piece =>
      simp only [take, send, within, ByteArray.size_append] at fits ⊢
      rw [if_pos (by omega), Nat.sub_add_eq]
  | _ => rfl

theorem take_cut (endless : p.room = none) (fits : p.written.size ≤ total)
    (exceeds : total < (p.take weak step).written.size) :
    Cut total (p.take weak step) ((p.within total).take weak step) := by
  obtain ⟨room, written, compacted, error, underway⟩ := p
  subst endless
  cases step with
  | write piece =>
      simp only [take, send, within, ByteArray.size_append] at fits exceeds ⊢
      rw [if_neg (by omega)]
      refine ⟨rfl, ?_, List.suffix_refl _⟩
      have all : written.extract 0 total = written := by
        ext1
        simpa using Array.extract_eq_self_of_le fits
      rw [ByteArray.extract_append, all, Nat.zero_sub]
  | _ => exact absurd fits (Nat.not_le.mpr exceeds)

end Progress

namespace Trace

open Progress

variable (weak : Bool) (trace : Trace) (p : Progress) (total : Nat)

theorem onward_follow (endless : p.room = none) : p.Onward (trace.follow weak p) := by
  induction trace generalizing p with
  | nil => exact .refl endless
  | cons step rest ih =>
      have first := take_onward weak p step endless
      rw [follow]
      split
      · exact first
      · exact first.trans (ih _ first.room)

/-- As long as everything fits, the end of a sink makes no difference; else the sink is full. -/
theorem follow_within (endless : p.room = none) (fits : p.written.size ≤ total) :
    if (trace.follow weak p).written.size ≤ total then
      trace.follow weak (p.within total) = (trace.follow weak p).within total
    else Cut total (trace.follow weak p) (trace.follow weak (p.within total)) := by
  induction trace generalizing p with
  | nil => exact (if_pos fits).mpr rfl
  | cons step rest ih =>
      have first := take_onward weak p step endless
      by_cases room : (p.take weak step).written.size ≤ total
      · have taken := take_within weak p step total endless room
        cases stopped : (p.take weak step).error with
        | some why =>
            have ended : (p.take weak step).error.isSome := by simp [stopped]
            rw [follow_failed weak step rest p ended, if_pos room, ← taken]
            exact follow_failed weak step rest _ (by rw [taken]; exact ended)
        | none =>
            rw [follow_onward weak step rest p stopped,
              follow_onward weak step rest (p.within total) (by rw [taken]; exact stopped), taken]
            exact ih _ first.room room
      · -- The sink is full at this step; the dump without an end goes on and only adds to its text.
        have exceeds : total < (p.take weak step).written.size := Nat.lt_of_not_le room
        have cut := take_cut weak p step total endless fits exceeds
        have later : (p.take weak step).Onward (follow weak (step :: rest) p) := by
          rw [follow]
          split
          · exact .refl first.room
          · exact onward_follow weak rest _ first.room
        obtain ⟨more, whole⟩ := later.written
        have longer : ¬ (follow weak (step :: rest) p).written.size ≤ total := by
          rw [whole, ByteArray.size_append]
          omega
        rw [if_neg longer, follow_failed weak step rest (p.within total) (by simp [cut.error])]
        exact ⟨cut.error, by rw [cut.written, later.extract (Nat.le_of_lt exceeds)],
          cut.compacted.trans later.compacted⟩

end Trace

namespace Plan

variable (weak : Bool) (plan : Plan) (total : Nat)

theorem run_within (fits : (plan.run weak none).written.size ≤ total) :
    plan.run weak (some total) = plan.run weak none := by
  rw [run_eq_outcome, run_eq_outcome]
  rw [run_eq_outcome, Progress.outcome] at fits
  have bounded := plan.trace.follow_within weak (.start none) total rfl (Nat.zero_le _)
  rw [if_pos fits] at bounded
  calc (plan.trace.follow weak (.start (some total))).outcome
      = ((plan.trace.follow weak (.start none)).within total).outcome :=
        congrArg Progress.outcome bounded
    _ = (plan.trace.follow weak (.start none)).outcome := rfl

theorem run_cut (exceeds : total < (plan.run weak none).written.size) :
    (plan.run weak (some total)).error = some (.sink "full") ∧
      (plan.run weak (some total)).written = (plan.run weak none).written.extract 0 total ∧
      (plan.run weak (some total)).compacted <+: (plan.run weak none).compacted := by
  rw [run_eq_outcome, run_eq_outcome]
  rw [run_eq_outcome, Progress.outcome] at exceeds
  have bounded := plan.trace.follow_within weak (.start none) total rfl (Nat.zero_le _)
  rw [if_neg (Nat.not_le.mpr exceeds)] at bounded
  exact ⟨bounded.error, bounded.written, List.reverse_prefix.mpr bounded.compacted⟩

end Plan

/-- Whatever the heap, the root and the options: a dump into a sink that takes `total` bytes leaves
the first `total` bytes of what a dump without an end writes, also where that one fails. It fails with
an error of the sink if these are not all, and has compacted no map that the other had not reached;
otherwise it has the same outcome and leaves the same heap. -/
theorem Heap.full_sink_cuts_text (h : Heap) (root : Value) (options : DumpOptions) (total : Nat) :
    let whole := h.dump root options none
    let cut := h.dump root options (some total)
    cut.1.bytes = whole.1.bytes.take total ∧
      (total < whole.1.bytes.length →
        (∃ why, cut.1.error = some why ∧ why.category = .sink ∧ why.message = "io_error: full") ∧
          cut.1.compacted <+: whole.1.compacted) ∧
      (whole.1.bytes.length ≤ total → cut = whole) := by
  intro whole cut
  let plan := h.rootPlan root options.context
  by_cases fits : whole.1.bytes.length ≤ total
  · have same : cut.1 = whole.1 := plan.run_within options.weak total fits
    have heap : cut.2 = whole.2 := congrArg (fun o : DumpOutcome => h.compactAll o.compacted) same
    refine ⟨?_, fun exceeds => absurd fits (Nat.not_le.mpr exceeds), fun _ => Prod.ext same heap⟩
    rw [same, List.take_of_length_le fits]
  · have exceeds := Nat.lt_of_not_le fits
    obtain ⟨error, written, compacted⟩ := plan.run_cut options.weak total exceeds
    have text : cut.1.bytes = whole.1.bytes.take total := by
      have held : cut.1.written = whole.1.written.extract 0 total := written
      simp [DumpOutcome.bytes, held]
    exact ⟨text, fun _ => ⟨⟨_, error, rfl, rfl⟩, compacted⟩, fun short => absurd short fits⟩

end StaticImage
