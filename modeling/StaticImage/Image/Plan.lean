import StaticImage.Heap.Basic
import StaticImage.Image.DumpError
import StaticImage.Image.Piece

/-!
Plans: what a dump is about to do, step by step and without regard to the sink. Shared objects are
written once for each way to them, so a plan can be far longer than what is done before an error or
a full sink ends it; what comes later in a plan is therefore worked out only when it is reached.
Following a plan is following the trace of all its steps up to where it stops.
-/

namespace StaticImage

inductive Step where
  | write (piece : Piece)
  /-- The map loses its free slots. -/
  | compact (id : MapId)
  | openMap (id : MapId)
  | closeMap (id : MapId)
  | openClass (id : ClassId)
  | closeClass (id : ClassId)
  /-- The banner of a function comes next. -/
  | function (id : ClosureId)
  | stop (why : DumpError)
  deriving DecidableEq, Repr

abbrev Trace := List Step

def Step.text (s : String) : Step :=
  .write (.text s)

/-- Steps that are known, a plan with what follows it, or one inside a map or a class. -/
inductive Plan where
  | steps (known : Trace)
  | append (first : Plan) (next : Unit → Plan)
  | insideMap (id : MapId) (inner : Plan)
  | insideClass (id : ClassId) (inner : Plan)

structure Underway where
  classes : List ClassId
  maps : List MapId
  deriving DecidableEq, Repr

namespace Underway

def idle : Underway :=
  ⟨[], []⟩

def take (u : Underway) : Step → Underway
  | .openClass id => { u with classes := id :: u.classes }
  | .closeClass _ => { u with classes := u.classes.tail }
  | .openMap id => { u with maps := id :: u.maps }
  | .closeMap _ => { u with maps := u.maps.tail }
  | .write _ | .compact _ | .function _ | .stop _ => u

end Underway

/-- How far a dump has come; the maps compacted last stand first. -/
structure Progress where
  /-- How many bytes the sink still takes, if there is an end to it. -/
  room : Option Nat
  written : ByteArray
  compacted : List MapId
  error : Option DumpError
  underway : Underway

structure DumpOutcome where
  written : ByteArray
  compacted : List MapId
  error : Option DumpError

def DumpOutcome.bytes (o : DumpOutcome) : List UInt8 :=
  o.written.data.toList

namespace Progress

def start (room : Option Nat) : Progress :=
  ⟨room, .empty, [], none, .idle⟩

def outcome (p : Progress) : DumpOutcome :=
  ⟨p.written, p.compacted.reverse, p.error⟩

def send (p : Progress) (bytes : ByteArray) : Progress :=
  match p with
  | ⟨none, written, compacted, error, underway⟩ =>
    ⟨none, written ++ bytes, compacted, error, underway⟩
  | ⟨some room, written, compacted, error, underway⟩ =>
    if bytes.size ≤ room then
      ⟨some (room - bytes.size), written ++ bytes, compacted, error, underway⟩
    else ⟨some 0, written ++ bytes.extract 0 room, compacted, some (.sink "full"), underway⟩

def take (weak : Bool) (p : Progress) : Step → Progress
  | .write piece => p.send (piece.render weak).toUTF8
  | .compact id => { p with compacted := id :: p.compacted }
  | .stop why => { p with error := some why }
  | .openMap id => { p with underway := p.underway.take (.openMap id) }
  | .closeMap id => { p with underway := p.underway.take (.closeMap id) }
  | .openClass id => { p with underway := p.underway.take (.openClass id) }
  | .closeClass id => { p with underway := p.underway.take (.closeClass id) }
  | .function _ => p

end Progress

def Trace.follow (weak : Bool) : Trace → Progress → Progress
  | [], p => p
  | step :: rest, p =>
    let p := p.take weak step
    if p.error.isSome then p else Trace.follow weak rest p

namespace Plan

instance : AndThen Plan := ⟨append⟩

def nothing : Plan :=
  steps []

def write (piece : Piece) : Plan :=
  steps [.write piece]

def text (s : String) : Plan :=
  steps [.text s]

def stop (why : DumpError) : Plan :=
  steps [.stop why]

def each {α : Type} (plan : α → Plan) : List α → Plan
  | [] => nothing
  | x :: xs => plan x >> each plan xs

/-- All steps of a plan, also those behind one that fails. -/
def trace : Plan → Trace
  | steps known => known
  | append first next => first.trace ++ (next ()).trace
  | insideMap id inner => .openMap id :: inner.trace ++ [.closeMap id]
  | insideClass id inner => .openClass id :: inner.trace ++ [.closeClass id]

/-- Follows a plan. What comes behind a failure is not worked out, but the maps and classes that the
failure is inside of are left on the way out of it. -/
def follow (weak : Bool) : Plan → Progress → Progress
  | steps known, p => known.follow weak p
  | append first next, p =>
    let p := first.follow weak p
    if p.error.isSome then p else (next ()).follow weak p
  | insideMap id inner, p =>
    (inner.follow weak (p.take weak (.openMap id))).take weak (.closeMap id)
  | insideClass id inner, p =>
    (inner.follow weak (p.take weak (.openClass id))).take weak (.closeClass id)

def run (weak : Bool) (room : Option Nat) (plan : Plan) : DumpOutcome :=
  (plan.follow weak (.start room)).outcome

@[simp]
theorem trace_steps (known : Trace) : (steps known).trace = known := rfl

@[simp]
theorem trace_andThen (first second : Plan) :
    (first >> second).trace = first.trace ++ second.trace := rfl

@[simp]
theorem trace_insideMap (id : MapId) (inner : Plan) :
    (insideMap id inner).trace = .openMap id :: inner.trace ++ [.closeMap id] := rfl

@[simp]
theorem trace_insideClass (id : ClassId) (inner : Plan) :
    (insideClass id inner).trace = .openClass id :: inner.trace ++ [.closeClass id] := rfl

@[simp]
theorem trace_each {α : Type} (plan : α → Plan) (xs : List α) :
    (each plan xs).trace = xs.flatMap fun x => (plan x).trace := by
  induction xs with
  | nil => rfl
  | cons x xs ih => rw [each, trace_andThen, ih, List.flatMap_cons]

end Plan

theorem Trace.follow_append (weak : Bool) (first second : Trace) (p : Progress)
    (h : p.error = none) :
    Trace.follow weak (first ++ second) p =
      let q := Trace.follow weak first p
      if q.error.isSome then q else Trace.follow weak second q := by
  induction first generalizing p with
  | nil => simp [Trace.follow, h]
  | cons step rest ih =>
    by_cases failed : (p.take weak step).error.isSome
    · simp [Trace.follow, failed]
    · simp only [List.cons_append, Trace.follow, failed]
      exact ih _ (by simpa using failed)

namespace Plan

theorem follow_enclosed (weak : Bool) (entry exit : Step) (inner : Plan) (p : Progress)
    (marks : ∀ q : Progress, (q.take weak exit).outcome = q.outcome)
    (entered : (p.take weak entry).error = none)
    (inside : (inner.follow weak (p.take weak entry)).outcome =
        (inner.trace.follow weak (p.take weak entry)).outcome ∧
      ((inner.trace.follow weak (p.take weak entry)).error = none →
        inner.follow weak (p.take weak entry) = inner.trace.follow weak (p.take weak entry))) :
    ((inner.follow weak (p.take weak entry)).take weak exit).outcome =
        (Trace.follow weak (entry :: inner.trace ++ [exit]) p).outcome ∧
      ((Trace.follow weak (entry :: inner.trace ++ [exit]) p).error = none →
        (inner.follow weak (p.take weak entry)).take weak exit =
          Trace.follow weak (entry :: inner.trace ++ [exit]) p) := by
  obtain ⟨same, onward⟩ := inside
  have first : Trace.follow weak (entry :: inner.trace ++ [exit]) p =
      Trace.follow weak (inner.trace ++ [exit]) (p.take weak entry) := by
    simp [Trace.follow, entered]
  rw [first, Trace.follow_append weak _ _ _ entered]
  cases failed : (inner.trace.follow weak (p.take weak entry)).error with
  | some why => simp [failed, marks, same]
  | none => simp [failed, onward failed, Trace.follow]

/-- Following a plan as it is worked out does what its whole trace says. Where it fails, only the maps
and classes that are left on the way out make a difference. -/
theorem follow_trace (weak : Bool) (plan : Plan) (p : Progress) (h : p.error = none) :
    (plan.follow weak p).outcome = (plan.trace.follow weak p).outcome ∧
      ((plan.trace.follow weak p).error = none → plan.follow weak p = plan.trace.follow weak p) := by
  induction plan generalizing p with
  | steps known => exact ⟨rfl, fun _ => rfl⟩
  | append first next first_ih next_ih =>
    obtain ⟨same, onward⟩ := first_ih p h
    have errors : (first.follow weak p).error = (first.trace.follow weak p).error :=
      congrArg DumpOutcome.error same
    rw [follow, trace, Trace.follow_append weak _ _ p h, errors]
    cases failed : (first.trace.follow weak p).error with
    | some why => simp [failed, same]
    | none =>
      simp only [failed, Option.isSome_none, Bool.false_eq_true, if_false, onward failed]
      exact next_ih () _ failed
  | insideMap id inner ih =>
    exact follow_enclosed weak (.openMap id) (.closeMap id) inner p (fun _ => rfl) h (ih _ h)
  | insideClass id inner ih =>
    exact follow_enclosed weak (.openClass id) (.closeClass id) inner p (fun _ => rfl) h (ih _ h)

theorem run_eq_outcome (weak : Bool) (room : Option Nat) (plan : Plan) :
    plan.run weak room = (plan.trace.follow weak (.start room)).outcome :=
  (plan.follow_trace weak (.start room) rfl).1

end Plan

end StaticImage
