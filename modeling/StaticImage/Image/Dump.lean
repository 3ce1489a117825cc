import StaticImage.Image.Declaration

namespace StaticImage

structure DumpOptions where
  /-- Strings are references to strings the host has already. -/
  weak : Bool
  /-- The name in force around a closure that is dumped by itself. -/
  context : Option String
  deriving DecidableEq, Repr

namespace Heap

def compactAll (h : Heap) (ids : List MapId) : Heap :=
  ids.foldl (fun h id => h.modifyTable id Table.compact) h

def dump (h : Heap) (root : Value) (options : DumpOptions) (room : Option Nat) :
    DumpOutcome × Heap :=
  let o := (h.rootPlan root options.context).run options.weak room
  (o, h.compactAll o.compacted)

def express (h : Heap) (v : Value) (options : DumpOptions) (key : Option String) :
    DumpOutcome × Heap :=
  let o := ((h.constant v).plan options.context key).run options.weak none
  (o, h.compactAll o.compacted)

end Heap

end StaticImage
