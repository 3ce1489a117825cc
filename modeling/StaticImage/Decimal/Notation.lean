import StaticImage.Decimal.Shortest

/-!
Reals as text: the shortest digits that read back, with a point while the first digit stands
between the fourth place behind the point and the sixteenth before it, else with an exponent.
-/

namespace StaticImage

namespace Decimal

/-- The place of the first digit: zero for the units. -/
def leading (d : Decimal) : Int :=
  d.exponent + Shortest.digitCount d.digits - 1

def positional (d : Decimal) : String :=
  let digits := Nat.toDigits 10 d.digits
  if 0 ≤ d.exponent then
    String.ofList (digits ++ List.replicate d.exponent.toNat '0') ++ ".0"
  else if 0 ≤ d.leading then
    let whole := d.leading.toNat + 1
    String.ofList (digits.take whole) ++ "." ++ String.ofList (digits.drop whole)
  else
    "0." ++ String.ofList (List.replicate (-d.leading - 1).toNat '0' ++ digits)

def scientific (d : Decimal) : String :=
  let digits := Nat.toDigits 10 d.digits
  let fraction := if digits.length ≤ 1 then "" else "." ++ String.ofList (digits.drop 1)
  String.ofList (digits.take 1) ++ fraction ++ "e" ++ toString d.leading

def text (d : Decimal) : String :=
  if -4 ≤ d.leading ∧ d.leading < 16 then d.positional else d.scientific

end Decimal

namespace HostReal

def text (r : HostReal) : String :=
  let sign := if r.isNegative then "-" else ""
  match r.format.decode r.magnitude with
  | .zero => sign ++ "0.0"
  | .infinite => sign ++ "inf"
  | .notANumber => "NaN"
  | .finite m q narrowBelow => sign ++ (Shortest.decimal ⟨m, q, narrowBelow⟩).text

end HostReal

end StaticImage
