import StaticImage.Parsing.Failure

/-!
Parsers over a sequence of items with spans. An outcome holds the failures that were recovered
from, and either a value, the position behind it and the furthest failure of what was tried beside
it, or the failure that ended the parse. Alternatives are tried in order and what fails gives back
its input.
-/

namespace StaticImage.Parsing

structure Source (τ : Type) where
  items : Array (τ × Span)
  ending : Span

inductive Result (τ α : Type) where
  | ok (value : α) (position : Nat) (beside : Option (Failure τ))
  | failed (failure : Failure τ)

structure Outcome (τ α : Type) where
  recovered : List (Failure τ)
  result : Result τ α

def Parser (τ α : Type) : Type :=
  Source τ → (position : Nat) → Outcome τ α

namespace Source

variable {τ : Type}

def spanAt (s : Source τ) (position : Nat) : Span :=
  match s.items[position]? with
  | some (_, span) => span
  | none => s.ending

def spanFrom (s : Source τ) (start position : Nat) : Span :=
  ⟨(s.spanAt start).start, (s.spanAt (max (position - 1) start)).stop⟩

end Source

namespace Outcome

variable {τ α β : Type}

def map (f : α → β) (o : Outcome τ α) : Outcome τ β :=
  match o.result with
  | .ok value position beside => ⟨o.recovered, .ok (f value) position beside⟩
  | .failed failure => ⟨o.recovered, .failed failure⟩

def mapFailures (f : Failure τ → Failure τ) (o : Outcome τ α) : Outcome τ α :=
  match o.result with
  | .ok value position beside => ⟨o.recovered.map f, .ok value position (beside.map f)⟩
  | .failed failure => ⟨o.recovered.map f, .failed (f failure)⟩

end Outcome

namespace Parser

variable {τ α β : Type}

def item (accept : τ → Option α) (expected : List τ) : Parser τ α := fun s position =>
  match s.items[position]? with
  | none => ⟨[], .failed ⟨position, s.ending, expected.map some, none, .none, none⟩⟩
  | some (t, span) =>
    match accept t with
    | some value => ⟨[], .ok value (position + 1) none⟩
    | none => ⟨[], .failed ⟨position, span, expected.map some, some t, .none, none⟩⟩

def filter (test : τ → Bool) : Parser τ τ :=
  item (fun t => if test t then some t else none) []

def one [DecidableEq τ] (t : τ) : Parser τ τ :=
  item (fun u => if u = t then some u else none) [t]

def oneOf [DecidableEq τ] (ts : List τ) : Parser τ τ :=
  item (fun u => if u ∈ ts then some u else none) ts

def ending : Parser τ Unit := fun s position =>
  match s.items[position]? with
  | none => ⟨[], .ok () position none⟩
  | some (t, span) => ⟨[], .failed ⟨position, span, [none], some t, .none, none⟩⟩

def map (f : α → β) (p : Parser τ α) : Parser τ β := fun s position =>
  (p s position).map f

def mapSpan (f : α → Span → β) (p : Parser τ α) : Parser τ β := fun s start =>
  let o := p s start
  match o.result with
  | .ok value position beside =>
    ⟨o.recovered, .ok (f value (s.spanFrom start position)) position beside⟩
  | .failed failure => ⟨o.recovered, .failed failure⟩

def check (f : α → Except String β) (p : Parser τ α) : Parser τ β := fun s start =>
  let o := p s start
  match o.result with
  | .ok value position beside =>
    match f value with
    | .ok value => ⟨o.recovered, .ok value position beside⟩
    | .error reason =>
      ⟨o.recovered,
        .failed ⟨position, s.spanFrom start position, [], none, .none, some reason⟩⟩
  | .failed failure => ⟨o.recovered, .failed failure⟩

def labelled (name : String) (p : Parser τ α) : Parser τ α := fun s position =>
  (p s position).mapFailures (Failure.named name)

variable [DecidableEq τ]

def both (p : Parser τ α) (q : Parser τ β) : Parser τ (α × β) := fun s start =>
  let a := p s start
  match a.result with
  | .failed failure => ⟨a.recovered, .failed failure⟩
  | .ok x position besideA =>
    let b := q s position
    match b.result with
    | .ok y position besideB =>
      ⟨a.recovered ++ b.recovered, .ok (x, y) position (Failure.either besideA besideB)⟩
    | .failed failure =>
      ⟨a.recovered ++ b.recovered,
        .failed (match besideA with
          | none => failure
          | some beside => failure.furthest beside)⟩

def first (p : Parser τ α) (q : Parser τ β) : Parser τ α :=
  (p.both q).map Prod.fst

def second (p : Parser τ α) (q : Parser τ β) : Parser τ β :=
  (p.both q).map Prod.snd

def between (p : Parser τ α) (opening closing : Parser τ β) : Parser τ α :=
  (opening.second p).first closing

/-- The first parser if it succeeds without recovery, else the second one. -/
def or (p q : Parser τ α) : Parser τ α := fun s position =>
  let a := p s position
  match a.result with
  | .ok x next beside =>
    if a.recovered.isEmpty then ⟨[], .ok x next beside⟩
    else
      let b := q s position
      match b.result with
      | .ok y next beside => if b.recovered.isEmpty then ⟨[], .ok y next beside⟩ else a
      | .failed _ => a
  | .failed failureA =>
    let b := q s position
    match b.result with
    | .ok y next beside => ⟨b.recovered, .ok y next beside⟩
    | .failed failureB =>
      if failureB.position < failureA.position then ⟨a.recovered, .failed failureA⟩
      else if failureA.position < failureB.position then ⟨b.recovered, .failed failureB⟩
      else ⟨a.recovered, .failed (failureA.furthest failureB)⟩

def choiceFrom (s : Source τ) (position : Nat) :
    (failures : Option (Failure τ)) → List (Parser τ α) → Outcome τ α
  | some failure, [] => ⟨[], .failed failure⟩
  | none, [] => ⟨[], .failed ⟨position, s.spanAt position, [], none, .none, none⟩⟩
  | failures, p :: ps =>
    let o := p s position
    match o.result with
    | .ok value next beside => ⟨o.recovered, .ok value next beside⟩
    | .failed failure => choiceFrom s position (Failure.either failures (some failure)) ps

def choice (ps : List (Parser τ α)) : Parser τ α := fun s position =>
  choiceFrom s position none ps

def optional (p : Parser τ α) : Parser τ (Option α) := fun s position =>
  let o := p s position
  match o.result with
  | .ok value next beside => ⟨o.recovered, .ok (some value) next beside⟩
  | .failed failure => ⟨[], .ok none position (some failure)⟩

def repeatFrom (p : Parser τ α) (s : Source τ) :
    (steps atLeast position : Nat) → List (Failure τ) → Option (Failure τ) → Outcome τ (List α)
  | 0, _, position, recovered, beside => ⟨recovered, .ok [] position beside⟩
  | steps + 1, atLeast, position, recovered, beside =>
    let o := p s position
    match o.result with
    | .ok value next besideItem =>
      (repeatFrom p s steps (atLeast - 1) next (recovered ++ o.recovered)
        (Failure.either beside besideItem)).map (value :: ·)
    | .failed failure =>
      if 0 < atLeast then ⟨recovered ++ o.recovered, .failed failure⟩
      else
        ⟨recovered,
          .ok [] position
            (Failure.either beside (Failure.either (some failure) o.recovered.head?))⟩

def many (p : Parser τ α) : Parser τ (List α) := fun s position =>
  repeatFrom p s (s.items.size - position + 1) 0 position [] none

def several (p : Parser τ α) : Parser τ (List α) := fun s position =>
  repeatFrom p s (s.items.size - position + 1) 1 position [] none

def trailing (separator : Parser τ β) (s : Source τ) (position : Nat)
    (recovered : List (Failure τ)) (beside : Option (Failure τ)) (last : Failure τ) :
    Outcome τ (List α) :=
  match (separator s position).result with
  | .ok _ next besideSeparator =>
    ⟨recovered, .ok [] next
      (Failure.either (Failure.either beside besideSeparator) (some last))⟩
  | .failed failure =>
    ⟨recovered, .ok [] position
      (Failure.either (Failure.either beside (some failure)) (some last))⟩

def separatedFrom (p : Parser τ α) (separator : Parser τ β) (s : Source τ) :
    (steps position : Nat) → List (Failure τ) → Option (Failure τ) → Outcome τ (List α)
  | 0, position, recovered, beside => ⟨recovered, .ok [] position beside⟩
  | steps + 1, position, recovered, beside =>
    let o := (separator.second p) s position
    match o.result with
    | .ok value next besideItem =>
      (separatedFrom p separator s steps next (recovered ++ o.recovered)
        (Failure.either beside besideItem)).map (value :: ·)
    | .failed failure => trailing separator s position recovered beside failure

/-- Items between separators, the last of which may stand behind the last item. -/
def separated (p : Parser τ α) (separator : Parser τ β) : Parser τ (List α) :=
  fun s position =>
    let o := p s position
    match o.result with
    | .ok value next beside =>
      (separatedFrom p separator s (s.items.size - next + 1) next o.recovered beside).map
        (value :: ·)
    | .failed failure => ⟨[], .ok [] position (some failure)⟩

def skipFrom (p : Parser τ α) (s : Source τ) :
    (steps position : Nat) → Option (Failure τ) → Outcome τ α
  | 0, position, _ => p s position
  | steps + 1, position, beside =>
    let o := p s position
    match o.result with
    | .ok value next besideEnd =>
      ⟨o.recovered, .ok value next (Failure.either beside besideEnd)⟩
    | .failed failure =>
      if position < s.items.size then
        skipFrom p s steps (position + 1) (Failure.either beside (some failure))
      else ⟨o.recovered, .failed failure⟩

def skipUntil (p : Parser τ α) : Parser τ α := fun s position =>
  skipFrom p s (s.items.size - position + 1) position none

def retryFrom (p : Parser τ α) (s : Source τ) (unrecovered : Outcome τ α) (failure : Failure τ) :
    (steps position : Nat) → Outcome τ α
  | 0, _ => unrecovered
  | steps + 1, position =>
    let o := p s position
    match o.result with
    | .ok value next beside => ⟨o.recovered ++ [failure], .ok value next beside⟩
    | .failed _ =>
      if position < s.items.size then retryFrom p s unrecovered failure steps (position + 1)
      else unrecovered

/-- On a failure leaves out one item after the other until the parser succeeds. -/
def recovering (p : Parser τ α) : Parser τ α := fun s position =>
  let o := p s position
  match o.result with
  | .ok _ _ _ => o
  | .failed failure =>
    let next := if position < s.items.size then position + 1 else position
    retryFrom p s o failure (s.items.size - next + 1) next

/-- A parser that contains itself, down to a depth. -/
def nested (body : Parser τ α → Parser τ α) : (depth : Nat) → Parser τ α
  | 0 => fun s position => ⟨[], .failed ⟨position, s.spanAt position, [], none, .none, none⟩⟩
  | depth + 1 => body (nested body depth)

/-- A parser that contains itself behind at least one item each time. -/
def recursive (body : Parser τ α → Parser τ α) : Parser τ α := fun s position =>
  nested body (s.items.size - position + 1) s position

def run (p : Parser τ α) (s : Source τ) : Option α × List (Failure τ) :=
  let o := p s 0
  match o.result with
  | .ok value _ _ => (some value, o.recovered)
  | .failed failure => (none, o.recovered ++ [failure])

end Parser

end StaticImage.Parsing
