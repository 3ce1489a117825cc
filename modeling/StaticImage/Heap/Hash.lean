import StaticImage.Heap.Value

/-!
Hash codes of keys. Strings are hashed over their UTF-8 bytes, numbers by their low bits, and an
object by its place in the heap, which counts from one in its first version.
-/

namespace StaticImage

def fnv1a (bytes : List UInt8) : UInt32 :=
  bytes.foldl (fun h b => (h ^^^ b.toUInt32) * 16777619) 2166136261

def textHash (text : String) : UInt32 :=
  fnv1a text.toUTF8.toList

def intHash (n : Int) : UInt32 :=
  UInt32.ofNat (n % UInt32.size).toNat

def objectHash (index : Nat) : UInt32 :=
  UInt32.ofNat (index + 1) ^^^ 1

def HostReal.hash : HostReal → UInt32
  | double bits => (bits ^^^ (bits >>> 32)).toUInt32
  | single bits => bits

def Datum.hash : Datum → UInt32
  | .nil => 0
  | .bool b => if b then 1 else 0
  | .int n => intHash n
  | .slot n => intHash n
  | .real r => r.hash
  | .string text => textHash text
  | .nativeFunction name => textHash name
  | .nativeClosure name => textHash name
  | .nativePointer name => textHash name
  | .closure id => objectHash id.index
  | .classObject id => objectHash id.index
  | .moduleObject id => objectHash id.index
  | .instanceObject id => objectHash id.index
  | .map id => objectHash id.index
  | .list id => objectHash id.index

end StaticImage
