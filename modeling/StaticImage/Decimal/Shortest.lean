import StaticImage.Decimal.Format

/-!
The fewest decimal digits that read back as a given binary number, and of those the nearest. Grids
of powers of ten are tried from coarse to fine; on each only the two neighbours of the number can
lie in the interval that rounds to it.
-/

namespace StaticImage

structure Decimal where
  digits : Nat
  exponent : Int
  deriving DecidableEq, Repr

namespace Shortest

/-- The binary number `m · 2 ^ q`, whose lower neighbour may be at half the distance. -/
structure Target where
  m : Nat
  q : Int
  narrowBelow : Bool

/-- A grid point `n · 10 ^ e` over a common denominator with `binary`. -/
def grid (t : Target) (e : Int) (n : Nat) : Nat :=
  (n * Nat.pow 10 e.toNat) <<< (2 - t.q).toNat

/-- The number `quarters · 2 ^ (q - 2)` over that denominator. -/
def binary (t : Target) (e : Int) (quarters : Nat) : Nat :=
  quarters <<< (t.q - 2).toNat * Nat.pow 10 (-e).toNat

/-- The grid points that round to the number; the ends of the interval belong to even numbers. -/
def readsBack (t : Target) (e : Int) (n : Nat) : Bool :=
  let low := binary t e (4 * t.m - (if t.narrowBelow then 1 else 2))
  let high := binary t e (4 * t.m + 2)
  if t.m % 2 = 0 then low ≤ grid t e n && grid t e n ≤ high
  else low < grid t e n && grid t e n < high

def below (t : Target) (e : Int) : Nat :=
  binary t e (4 * t.m) / grid t e 1

def upperIsNear (t : Target) (e : Int) : Bool :=
  grid t e (below t e) + grid t e (below t e + 1) ≤ 2 * binary t e (4 * t.m)

/-- Of two neighbours that read back the nearer one, a tie going up. -/
def onGrid (t : Target) (e : Int) : Option Nat :=
  let n := below t e
  if readsBack t e (n + 1) && (upperIsNear t e || !readsBack t e n) then some (n + 1)
  else if readsBack t e n then some n
  else none

def search (t : Target) : (steps : Nat) → Int → Decimal
  | 0, e => ⟨below t e, e⟩
  | steps + 1, e =>
    match onGrid t e with
    | some n => ⟨n, e⟩
    | none => search t steps (e - 1)

def digitCount (n : Nat) : Nat :=
  (Nat.toDigits 10 n).length

/-- The first grid has one point near the number; there are as many steps as digits can need. -/
def decimal (t : Target) : Decimal :=
  search t (Nat.log2 t.m + 8)
    (digitCount (binary t 0 (4 * t.m)) - digitCount (grid t 0 1) + 1)

end Shortest

end StaticImage
