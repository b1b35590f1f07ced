import Reckoner.Number.Shortest
/-!
How a number is laid out in text: which exponents are written positionally, and how the others
are marked. Positional texts always have a digit after the point.
-/
namespace Reckoner.Decimal

structure Layout where
  /-- The least exponent written positionally. -/
  least : Int
  /-- The greatest exponent written positionally. -/
  greatest : Int
  /-- Whether an exponent that is not negative carries a plus sign. -/
  plus : Bool
  tie : Tie

/-- Results and labels are positional from `0.0001` to below `10 ^ 16`; the tie goes up. -/
def Layout.result : Layout := ⟨-4, 15, false, .up⟩

/-- JSON numbers are positional from `0.00001` to below `10 ^ 16`, with a sign on every other
exponent; the tie goes to the even digit. -/
def Layout.json : Layout := ⟨-5, 15, true, .even⟩

/-- Digits with the point placed as `exponent` says. -/
def positional (d : Digits) : List Char :=
  if d.exponent < 0 then
    ['0', '.'] ++ List.replicate ((-d.exponent).toNat - 1) '0' ++ d.digits
  else
    let whole := d.exponent.toNat + 1
    let fraction := d.digits.drop whole
    d.digits.take whole ++ List.replicate (whole - d.digits.length) '0' ++
      '.' :: (if fraction.isEmpty then ['0'] else fraction)

def scientific (plus : Bool) (d : Digits) : List Char :=
  let fraction := d.digits.drop 1
  let sign := if plus && 0 ≤ d.exponent then ['+'] else []
  d.digits.take 1 ++ (if fraction.isEmpty then [] else '.' :: fraction) ++
    'e' :: sign ++ (toString d.exponent).toList

def Layout.digits (l : Layout) (d : Digits) : List Char :=
  if l.least ≤ d.exponent ∧ d.exponent ≤ l.greatest then positional d
  else scientific l.plus d

/-- Text of the magnitude with the given bit pattern. -/
def Layout.magnitude (l : Layout) (pattern : Nat) : List Char :=
  if pattern = 0 then ['0', '.', '0']
  else l.digits (shortest l.tie (Binary64.Magnitude.ofPattern pattern))

/-- Text of any number; what is not a number has no sign. -/
def Layout.text (l : Layout) (x : Binary64) : String :=
  if x.isNaN then "NaN"
  else
    let sign := if x.isNegative then ['-'] else []
    let body := if x.isInfinite then ['i', 'n', 'f'] else l.magnitude x.pattern
    String.ofList (sign ++ body)

end Reckoner.Decimal

namespace Reckoner

/-- The text of a number in results, in tree labels and in messages. -/
def numberText (x : Binary64) : String :=
  Decimal.Layout.result.text x

end Reckoner
