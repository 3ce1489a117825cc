import StaticImage.Storage.Tree
import StaticImage.Text.Utf8

namespace StaticImage.Storage

inductive ReadError where
  | notFound (cause : PathError) (path : String)
  | notUtf8 (fault : Utf8.Part) (path : String)
  deriving DecidableEq, Repr

def ReadError.message : ReadError → String
  | notFound cause path => "snapshot " ++ path ++ " not found: " ++ cause.message
  | notUtf8 fault path => "snapshot " ++ path ++ " is not valid UTF-8: " ++ fault.message

namespace Tree

def leadsToDirectory (t : Tree) (path : String) : Bool :=
  match refusal? path, t.follow (.ofString path) with
  | none, .ok (.within names) => path ≠ "" && t.isDirectory names
  | none, .ok .around => true
  | _, _ => false

def baseDirectory (t : Tree) (base : String) : Path :=
  let p := Path.ofString base
  if t.leadsToDirectory base then p else p.parent

def locate (t : Tree) (base path : String) : Except ReadError Place :=
  let p := (t.baseDirectory base).join (.ofString path)
  let place :=
    if p.parts.any holdsNul then .error .nulCharacter
    else if p = .ofString "" then .error .missing
    else t.follow p
  place.mapError fun cause => .notFound cause path

def readText (t : Tree) (place : Place) : Except ReadError String :=
  match t.read place with
  | .error cause => .error (.notFound cause place.text)
  | .ok bytes =>
    match Utf8.decode bytes with
    | .ok text => .ok text
    | .error fault => .error (.notUtf8 fault place.text)

end Tree

end StaticImage.Storage
