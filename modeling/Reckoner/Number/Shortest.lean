import Reckoner.Number.Binary
/-!
Shortest decimals. Of all decimals that round to a given magnitude, the one with the fewest
digits is taken, and of those the nearest; a tie is decided by the caller.
-/
namespace Reckoner.Decimal

/-- Which of two equally near decimals is taken. -/
inductive Tie where
  | up
  | even
deriving DecidableEq, Repr

/-- The decimal `d.ddd * 10 ^ exponent`, with its digits from the first that is not zero to the
last that is not zero. -/
structure Digits where
  digits : List Char
  exponent : Int
deriving DecidableEq, Repr

/-- A magnitude with the bounds of what rounds to it, all counted in `1 / unit` of `10 ^ -340`.
That scale puts seventeen digits of the least magnitude above the point. -/
structure Window where
  value : Nat
  lower : Nat
  upper : Nat
  unit : Nat
  closed : Bool

/-- The bounds lie halfway to the neighbours. Below a power of two the neighbour is twice as near,
and the bounds themselves round to even significands only. -/
def Window.of (m : Binary64.Magnitude) : Window :=
  let quarter := Nat.pow 10 340 <<< m.shift
  let value := 4 * m.significand * quarter
  { value
    lower := value - (if m.significand = 1 <<< 52 ∧ 0 < m.shift then 1 else 2) * quarter
    upper := value + 2 * quarter
    unit := 4 <<< 1074
    closed := m.significand % 2 == 0 }

def Window.contains (w : Window) (n : Nat) : Bool :=
  if w.closed then w.lower ≤ n * w.unit && n * w.unit ≤ w.upper
  else w.lower < n * w.unit && n * w.unit < w.upper

/-- The better of the two neighbours `c` and `c + 1` on the grid of multiples of `step`. -/
def Window.nearer (w : Window) (tie : Tie) (step c : Nat) : Nat :=
  let below := w.value - c * step * w.unit
  let above := (c + 1) * step * w.unit - w.value
  if below < above then c
  else if above < below then c + 1
  else if tie = .even ∧ c % 2 = 0 then c
  else c + 1

/-- The multiple of `step` to take, if one of the value's two neighbours lies in the window. -/
def Window.onGrid? (w : Window) (tie : Tie) (step : Nat) : Option Nat :=
  let c := w.value / w.unit / step
  match w.contains (c * step), w.contains ((c + 1) * step) with
  | true, true => some (w.nearer tie step c)
  | true, false => some c
  | false, true => some (c + 1)
  | false, false => none

def dropTrailingZeros (digits : List Char) : List Char :=
  (digits.reverse.dropWhile (· == '0')).reverse

/-- The decimal `n * 10 ^ (place - 340)`. -/
def Digits.of (n place : Nat) : Digits :=
  let digits := Nat.toDigits 10 n
  ⟨dropTrailingZeros digits, (digits.length - 1 + place : Nat) - 340⟩

/-- The shortest decimal of a magnitude other than zero. Seventeen digits always suffice. -/
def shortest (tie : Tie) (m : Binary64.Magnitude) : Digits :=
  let w := Window.of m
  let places := (Nat.toDigits 10 (w.value / w.unit)).length
  let found := (List.range 17).findSome? fun i =>
    (w.onGrid? tie (Nat.pow 10 (places - (i + 1)))).map fun n => Digits.of n (places - (i + 1))
  found.getD (Digits.of (w.value / w.unit) 0)

end Reckoner.Decimal
