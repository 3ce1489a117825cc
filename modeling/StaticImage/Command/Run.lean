import StaticImage.Command.Arguments
import StaticImage.Snapshot.Imaging
import StaticImage.Storage.Reading

/-!
Running the command. Nothing is written, and no output file is created, until the snapshot is
loaded and the value to dump is found; what was written before a failure stays.
-/

namespace StaticImage.Command

structure Execution where
  output : Option String
  bytes : List UInt8
  complaints : List String
  deriving DecidableEq, Repr

def execute (host : Host) (a : Arguments) (text : String) : Except (List String) Execution :=
  match Snapshot.loadRoot host text a.root with
  | .error why => .error why.messages
  | .ok (loaded, v) =>
    if a.listing then
      let listings := (Snapshot.listings loaded v).map (· ++ "\n")
      .ok ⟨none, (String.join listings).toUTF8.toList, []⟩
    else
      let (o, _) := loaded.heap.dump v ⟨a.weak, a.context⟩ none
      .ok ⟨a.output, o.bytes, o.error.toList.map DumpError.message⟩

structure Report where
  exit : Nat
  stdout : List UInt8
  tree : Storage.Tree
  deriving DecidableEq, Repr

def badCommandLine : Nat := 2

def failed : Nat := 1

def Execution.perform (e : Execution) (tree : Storage.Tree) : Report :=
  let exit := if e.complaints.isEmpty then 0 else failed
  match e.output with
  | none => ⟨exit, e.bytes, tree⟩
  | some path =>
    match tree.destination path with
    | .error _ => ⟨failed, [], tree⟩
    | .ok place => ⟨exit, [], tree.write place e.bytes⟩

def run (host : Host) (tree : Storage.Tree) (words : List String) : Report :=
  match read? words with
  | none => ⟨badCommandLine, [], tree⟩
  | some a =>
    match (tree.locate "." (a.file.getD "")).bind tree.readText with
    | .error _ => ⟨failed, [], tree⟩
    | .ok text =>
      match execute host a text with
      | .error _ => ⟨failed, [], tree⟩
      | .ok e => e.perform tree

end StaticImage.Command
