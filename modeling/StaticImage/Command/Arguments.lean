/-!
The command line: a snapshot file, options with a value and flags without one. Long names start
with two hyphens and may join their value by an equals sign; short ones may stand together behind
one hyphen, the last with its value joined on. Nothing may be given twice.
-/

namespace StaticImage.Command

structure Arguments where
  file : Option String
  output : Option String
  root : Option String
  context : Option String
  weak : Bool
  listing : Bool
  deriving DecidableEq, Repr

inductive Setting where
  | output
  | root
  | context
  deriving DecidableEq, Repr

inductive Switch where
  | weak
  | listing
  deriving DecidableEq, Repr

inductive Choice where
  | setting (s : Setting)
  | switch (s : Switch)
  deriving DecidableEq, Repr

def long? : String → Option Choice
  | "output" => some (.setting .output)
  | "root" => some (.setting .root)
  | "prefix" => some (.setting .context)
  | "weak" => some (.switch .weak)
  | "emit-graph" => some (.switch .listing)
  | _ => none

def short? : Char → Option Choice
  | 'o' => some (.setting .output)
  | 'r' => some (.setting .root)
  | 'p' => some (.setting .context)
  | 'w' => some (.switch .weak)
  | _ => none

namespace Arguments

def empty : Arguments :=
  ⟨none, none, none, none, false, false⟩

def set? (a : Arguments) (s : Setting) (value : String) : Option Arguments :=
  match s with
  | .output =>
    if a.output.isSome || value.isEmpty then none else some { a with output := some value }
  | .root => if a.root.isSome then none else some { a with root := some value }
  | .context => if a.context.isSome then none else some { a with context := some value }

def switch? (a : Arguments) : Switch → Option Arguments
  | .weak => if a.weak then none else some { a with weak := true }
  | .listing => if a.listing then none else some { a with listing := true }

def file? (a : Arguments) (file : String) : Option Arguments :=
  if a.file.isSome then none else some { a with file := some file }

end Arguments

def isOption (word : String) : Bool :=
  word.startsWith "-" && word ≠ "-"

def group? (a : Arguments) : List Char → Option (Arguments × Option Setting)
  | [] => some (a, none)
  | c :: rest =>
    match short? c with
    | none => none
    | some (.switch s) => do group? (← a.switch? s) rest
    | some (.setting s) =>
      match rest with
      | [] => some (a, some s)
      | '=' :: value => (a.set? s (String.ofList value)).map fun a => (a, none)
      | value => (a.set? s (String.ofList value)).map fun a => (a, none)

def long (a : Arguments) (word : List Char) : Option (Arguments × Option Setting) :=
  let name := word.takeWhile (· ≠ '=')
  let value := word.drop name.length
  match long? (String.ofList name), value with
  | none, _ => none
  | some (.switch s), [] => (a.switch? s).map fun a => (a, none)
  | some (.switch _), _ => none
  | some (.setting s), [] => some (a, some s)
  | some (.setting s), _ :: value => (a.set? s (String.ofList value)).map fun a => (a, none)

/-- Reads words from left to right; `waiting` is the setting whose value must come next. -/
def readFrom (a : Arguments) (waiting : Option Setting) : List String → Option Arguments
  | [] => if waiting.isSome then none else some a
  | word :: words =>
    match waiting with
    | some s =>
      if isOption word then none
      else do readFrom (← a.set? s word) none words
    | none =>
      if word = "--" then words.foldlM Arguments.file? a
      else if !isOption word then do readFrom (← a.file? word) none words
      else
        match word.toList with
        | '-' :: '-' :: name => do
          let (a, waiting) ← long a name
          readFrom a waiting words
        | _ :: names => do
          let (a, waiting) ← group? a names
          readFrom a waiting words
        | [] => none

def read? (words : List String) : Option Arguments :=
  (readFrom .empty none words).bind fun a => if a.file.isSome then some a else none

end StaticImage.Command
