/-!
Binary floating-point numbers of 64 bits, as bit patterns and through exact natural arithmetic. A
finite magnitude is a whole number of units of `2 ^ -1074`, and rounding a fraction to nearest,
ties to even, gives the bit pattern directly: patterns of magnitudes are ordered as the magnitudes
are.
-/
namespace Reckoner

/-- A floating-point number as its bit pattern. Zero has two patterns, and what is not a number
has many; they are all kept apart. -/
structure Binary64 where
  bits : UInt64
deriving DecidableEq, Hashable, Repr

namespace Binary64

/-- The magnitude `significand * 2 ^ shift` in units of `2 ^ -1074`. -/
structure Magnitude where
  significand : Nat
  shift : Nat
deriving DecidableEq, Repr

/-- The bit pattern of positive infinity; patterns above it are not numbers. -/
def infinitePattern : Nat := 2047 <<< 52

def isNegative (x : Binary64) : Bool :=
  1 <<< 63 ≤ x.bits.toNat

/-- The bit pattern without its sign. -/
def pattern (x : Binary64) : Nat :=
  x.bits.toNat % 1 <<< 63

def isNaN (x : Binary64) : Bool :=
  infinitePattern < x.pattern

def isInfinite (x : Binary64) : Bool :=
  x.pattern == infinitePattern

def Magnitude.ofPattern (p : Nat) : Magnitude :=
  if p < 1 <<< 52 then ⟨p, 0⟩ else ⟨1 <<< 52 + p % 1 <<< 52, p >>> 52 - 1⟩

def Magnitude.toPattern (m : Magnitude) : Nat :=
  m.shift <<< 52 + m.significand

/-- The whole number nearest to a fraction; halfway it is the even one. -/
def roundDiv (num den : Nat) : Nat :=
  let q := num / den
  let r := num % den
  if den < 2 * r ∨ (den = 2 * r ∧ q % 2 = 1) then q + 1 else q

/-- The pattern nearest to `num / den`. The shift leaves at most 53 significant bits, and a
significand that rounds up to `2 ^ 53` carries into the next shift by itself. -/
def nearestPattern (num den : Nat) : Nat :=
  let units := num <<< 1074
  let shift := (units / den).log2 - 52
  min infinitePattern (shift <<< 52 + roundDiv units (den <<< shift))

/-- The number nearest to `num / den`. -/
def nearest (num den : Nat) : Binary64 :=
  ⟨UInt64.ofNat (nearestPattern num den)⟩

theorem toPattern_ofPattern (p : Nat) : (Magnitude.ofPattern p).toPattern = p := by
  unfold Magnitude.ofPattern Magnitude.toPattern
  simp only [Nat.shiftLeft_eq, Nat.shiftRight_eq_div_pow]
  split
  · simp
  · simp only
    omega

end Binary64

end Reckoner
