/-!
Failures of a parser. A failure belongs to a position, and of several the furthest tells most:
those at one position are merged into a single one that expects what any of them did.
-/

namespace StaticImage

structure Span where
  start : Nat
  stop : Nat
  deriving DecidableEq, Repr

structure Located (α : Type) where
  value : α
  span : Span
  deriving Repr

namespace Parsing

inductive Label where
  | none
  | one (name : String)
  | many
  deriving DecidableEq, Repr

/-- In `expected` and `found` no item stands for the end of the input. -/
structure Failure (τ : Type) where
  position : Nat
  span : Span
  expected : List (Option τ)
  found : Option τ
  label : Label
  reason : Option String
  deriving DecidableEq, Repr

def Label.merge : Label → Label → Label
  | none, l => l
  | l, none => l
  | l, m => if l = m then l else many

def Label.orNamed (l : Label) (name : String) : Label :=
  match l with
  | one other => one other
  | _ => one name

namespace Failure

variable {τ : Type}

def named (name : String) (f : Failure τ) : Failure τ :=
  { f with label := f.label.orNamed name }

variable [DecidableEq τ]

def union (a b : List (Option τ)) : List (Option τ) :=
  a ++ b.filter fun t => t ∉ a

def merge (a b : Failure τ) : Failure τ :=
  { a with expected := union a.expected b.expected, label := a.label.merge b.label }

def furthest (a b : Failure τ) : Failure τ :=
  if b.position < a.position then a
  else if a.position < b.position then b
  else a.merge b

/-- The furthest of two failures that may be absent; merged, the second one leads. -/
def either : Option (Failure τ) → Option (Failure τ) → Option (Failure τ)
  | none, b => b
  | a, none => a
  | some a, some b => some (b.furthest a)

end Failure

def itemText {τ : Type} (display : τ → String) : Option τ → String
  | some t => "'" ++ display t ++ "'"
  | none => "end of input"

namespace Failure

variable {τ : Type}

def note (display : τ → String) (f : Failure τ) : String :=
  match f.found with
  | some t => "unexpected " ++ itemText display (some t)
  | none => "here"

/-- The expected items come in the order of their texts. -/
def message (display : τ → String) (f : Failure τ) : String :=
  match f.reason with
  | some reason => reason
  | none =>
    let expected := (f.expected.map (itemText display)).mergeSort fun a b => decide (a ≤ b)
    "unexpected " ++ itemText display f.found ++
      (match f.label with
        | .one name => " while parsing " ++ name
        | _ => "") ++
      (if expected.isEmpty then "" else ", expected " ++ ", ".intercalate expected)

end Failure

end Parsing

end StaticImage
