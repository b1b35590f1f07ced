import Reckoner.Number.Binary
/-!
Arithmetic on numbers of 64 bits. An operand that is not a number is handed on as the result, the
left one first, and only loses its signal. An operation on numbers that has no result gives one
and the same pattern.
-/
namespace Reckoner.Binary64

def one : Binary64 := nearest 1 1

/-- What an operation on numbers gives when it has no result. -/
def invalid : Binary64 := ⟨0xFFF8000000000000⟩

/-- The pattern with its signal taken away. -/
def quiet (x : Binary64) : Binary64 :=
  ⟨x.bits ||| 0x0008000000000000⟩

/-- Whether a pattern that is not a number signals. -/
def isSignaling (x : Binary64) : Bool :=
  x.isNaN && x.quiet != x

/-- Changes the sign, also of what is not a number. -/
def neg (x : Binary64) : Binary64 :=
  ⟨x.bits ^^^ 0x8000000000000000⟩

def toFloat (x : Binary64) : Float :=
  Float.ofBits x.bits

/-- The number that an operation on numbers has come to. -/
def ofFloat (f : Float) : Binary64 :=
  if f.isNaN then invalid else ⟨f.toBits⟩

/-- Extends an operation to operands that are not numbers. -/
def combine (f : Float → Float → Float) (x y : Binary64) : Binary64 :=
  if x.isNaN then x.quiet
  else if y.isNaN then y.quiet
  else ofFloat (f x.toFloat y.toFloat)

def add : Binary64 → Binary64 → Binary64 :=
  combine (· + ·)

def sub : Binary64 → Binary64 → Binary64 :=
  combine (· - ·)

def mul : Binary64 → Binary64 → Binary64 :=
  combine (· * ·)

def div : Binary64 → Binary64 → Binary64 :=
  combine (· / ·)

/-- The natural logarithm. -/
def log (x : Binary64) : Binary64 :=
  if x.isNaN then x.quiet else ofFloat x.toFloat.log

/-- Whether a number is an odd integer. An infinite one is not. -/
def isOddInteger (x : Binary64) : Bool :=
  let m := Magnitude.ofPattern x.pattern
  m.significand <<< m.shift % 1 <<< 1075 == 1 <<< 1074

/-- A power of what is not a number. An odd exponent takes the sign away. -/
def powNaN (x y : Binary64) : Binary64 :=
  if x.isNegative && y.isOddInteger then x.quiet.neg else x.quiet

/-- A power. An exponent of zero and a base of one give one whatever the other operand is, unless
that signals. -/
def pow (x y : Binary64) : Binary64 :=
  if !x.isNaN && !y.isNaN then ofFloat (x.toFloat.pow y.toFloat)
  else if y.pattern = 0 then if x.isSignaling then x.quiet else one
  else if x = one then if y.isSignaling then y.quiet else one
  else if !x.isNaN then y.quiet
  else if y.isNaN then x.quiet
  else powNaN x y

instance : Neg Binary64 := ⟨neg⟩
instance : Add Binary64 := ⟨add⟩
instance : Sub Binary64 := ⟨sub⟩
instance : Mul Binary64 := ⟨mul⟩
instance : Div Binary64 := ⟨div⟩

end Reckoner.Binary64
