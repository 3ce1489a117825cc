/-!
A tree of files below one directory. Directories are there as far as files stand in them; around
the tree there are only the directories that hold it, up to the root, and no name is found in them.
Names and paths have most lengths, counted in bytes of UTF-8.
-/

namespace StaticImage.Storage

structure Tree where
  files : List (List String × List UInt8)
  deriving DecidableEq, Repr

inductive PathError where
  | missing
  | notDirectory
  | isDirectory
  | tooLong
  | nulCharacter
  deriving DecidableEq, Repr

def PathError.message : PathError → String
  | missing => "No such file or directory (os error 2)"
  | notDirectory => "Not a directory (os error 20)"
  | isDirectory => "Is a directory (os error 21)"
  | tooLong => "File name too long (os error 36)"
  | nulCharacter => "file name contained an unexpected NUL byte"

def nameLimit : Nat := 255

/-- The most bytes of a path that is followed in one piece. -/
def pathLimit : Nat := 4095

/-- The parts of a path; two that are empty stand around a single separator. -/
def components (path : String) : List String :=
  (path.toList.splitOn '/').map String.ofList

def isName (part : String) : Bool :=
  part ≠ "" && part ≠ "." && part ≠ ".."

structure Path where
  fromRoot : Bool
  parts : List String
  deriving DecidableEq, Repr

namespace Path

def ofString (path : String) : Path :=
  ⟨path.startsWith "/", components path⟩

/-- The directory a path stands in; what names no step stands at the top of the tree. -/
def parent (p : Path) : Path :=
  let steps := p.parts.filter fun part => part ≠ "" && part ≠ "."
  if steps.isEmpty then ⟨false, []⟩ else ⟨p.fromRoot, steps.dropLast⟩

def join (base path : Path) : Path :=
  if path.fromRoot then path else ⟨base.fromRoot, base.parts ++ path.parts⟩

end Path

/-- Where a path leads: below the top of the tree, or to a directory around the tree. -/
inductive Place where
  | within (names : List String)
  | around
  deriving DecidableEq, Repr

def Path.start (p : Path) : Place :=
  if p.fromRoot then .around else .within []

def namesText (names : List String) : String :=
  "/".intercalate names

def Place.text : Place → String
  | within names => namesText names
  | around => "/"

def holdsNul (part : String) : Bool :=
  part.toList.contains '\x00'

def refusal? (path : String) : Option PathError :=
  if holdsNul path then some .nulCharacter
  else if path.utf8ByteSize > pathLimit then some .tooLong
  else none

def absence (name : String) : PathError :=
  if name.utf8ByteSize > nameLimit then .tooLong else .missing

namespace Tree

def file? (t : Tree) (names : List String) : Option (List UInt8) :=
  t.files.lookup names

def isFile (t : Tree) (names : List String) : Bool :=
  (t.file? names).isSome

/-- The top of the tree, and every place on the way to a file. -/
def isDirectory (t : Tree) (names : List String) : Bool :=
  names.isEmpty || t.files.any fun (name, _) => names.isPrefixOf name && names ≠ name

def step (t : Tree) (place : Place) (part : String) : Except PathError Place :=
  match place with
  | .around => if isName part then .error (absence part) else .ok .around
  | .within names =>
    if !t.isDirectory names then .error .notDirectory
    else if part = ".." then .ok (if names.isEmpty then .around else .within names.dropLast)
    else if !isName part then .ok place
    else if t.isFile (names ++ [part]) || t.isDirectory (names ++ [part]) then
      .ok (.within (names ++ [part]))
    else .error (absence part)

/-- Follows a path name by name, so that no limit holds for it as a whole. -/
def follow (t : Tree) (p : Path) : Except PathError Place :=
  p.parts.foldlM t.step p.start

def read (t : Tree) : Place → Except PathError (List UInt8)
  | .around => .error .isDirectory
  | .within names =>
    match t.file? names with
    | some content => .ok content
    | none => .error (if names.isEmpty then .missing else .isDirectory)

/-- The names of the file that a path is or would be created as; around the tree none can be. -/
def destination (t : Tree) (path : String) : Except PathError (List String) :=
  let p := Path.ofString path
  match refusal? path, p.parts.getLast? with
  | some cause, _ => .error cause
  | none, none => .error .missing
  | none, some name => do
    match ← t.follow { p with parts := p.parts.dropLast } with
    | .around => .error .missing
    | .within names =>
      if !t.isDirectory names then .error .notDirectory
      else if !isName name || t.isDirectory (names ++ [name]) then .error .isDirectory
      else if name.utf8ByteSize > nameLimit then .error .tooLong
      else .ok (names ++ [name])

def write (t : Tree) (names : List String) (content : List UInt8) : Tree :=
  ⟨(names, content) :: t.files.filter fun (name, _) => name ≠ names⟩

end Tree

end StaticImage.Storage
