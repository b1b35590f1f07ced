import Reckoner.Number.Binary
/-!
The value of a decimal literal: digits with at most one dot among them.
-/
namespace Reckoner.Literal

def digitValue (c : Char) : Nat :=
  c.toNat - '0'.toNat

def digitsValue (digits : List Char) : Nat :=
  digits.foldl (fun n c => 10 * n + digitValue c) 0

/-- The number nearest to the literal, however many digits it has. -/
def value (literal : List Char) : Binary64 :=
  let whole := literal.takeWhile (· != '.')
  let fraction := (literal.dropWhile (· != '.')).drop 1
  Binary64.nearest (digitsValue (whole ++ fraction)) (Nat.pow 10 fraction.length)

end Reckoner.Literal
