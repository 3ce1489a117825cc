import StaticImage.Heap.Listing
import StaticImage.Image.Dump
import StaticImage.Snapshot.Loading
import StaticImage.Text.Utf8

namespace StaticImage.Snapshot

inductive ImageError where
  | load (why : LoadError)
  | root (why : RootError)
  | dump (why : DumpError)

def LoadError.messages : LoadError → List String
  | text errors => errors.map TextError.message
  | items problems => problems.map fun p => p.value.message

def ImageError.messages : ImageError → List String
  | load why => why.messages
  | root why => [why.message]
  | dump why => [why.message]

def ImageError.message (e : ImageError) : String :=
  String.join (e.messages.map (· ++ "\n"))

def loadRoot (host : Host) (text : String) (root : Option String) :
    Except ImageError (Loaded × Value) :=
  match load host text with
  | .error why => .error (.load why)
  | .ok loaded =>
    match loaded.root root with
    | .error why => .error (.root why)
    | .ok v => .ok (loaded, v)

def image (host : Host) (text : String) (root : Option String) (options : DumpOptions) :
    Except ImageError String :=
  match loadRoot host text root with
  | .error why => .error why
  | .ok (loaded, v) =>
    let (o, _) := loaded.heap.dump v options none
    match o.error with
    | some why => .error (.dump why)
    | none => .ok (Utf8.lossy o.bytes)

def listings (loaded : Loaded) (root : Value) : List String :=
  (loaded.heap.rootClosures root).filterMap loaded.heap.listing?

end StaticImage.Snapshot
