import StaticImage.Decimal.Reading

namespace StaticImage

inductive Host where
  | wide
  | narrow
  deriving DecidableEq, Repr

namespace Host

def intBits : Host → Nat
  | wide => 64
  | narrow => 32

def format : Host → BinaryFormat
  | wide => .double
  | narrow => .single

def limit (host : Host) : Nat :=
  1 <<< (host.intBits - 1)

def fits (host : Host) (n : Int) : Bool :=
  -host.limit ≤ n && n < host.limit

def wrap (host : Host) (n : Int) : Int :=
  n.bmod (1 <<< host.intBits)

end Host

end StaticImage
