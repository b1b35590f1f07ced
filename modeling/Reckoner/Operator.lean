import Reckoner.Number.Arithmetic
/-!
The arithmetic operators: how each is written, how tightly it binds and what it computes.
-/
namespace Reckoner

inductive Operator where
  | add
  | sub
  | mul
  | div
  | pow
  | log
deriving DecidableEq, Hashable, Repr

/-- Whether an operator stands between two operands or in front of one. -/
inductive Arity where
  | unary
  | binary
deriving DecidableEq, Repr

namespace Operator

/-- One row of the operator table. -/
structure Entry where
  symbol : String
  binaryPrecedence : Nat
  unaryPrecedence : Option Nat
  rightAssociative : Bool
deriving DecidableEq, Repr

/-- A sign binds looser than a product, so `-2*3` negates the product. -/
def entry : Operator → Entry
  | add => ⟨"+", 1, some 2, false⟩
  | sub => ⟨"-", 1, some 2, false⟩
  | mul => ⟨"*", 3, none, false⟩
  | div => ⟨"/", 3, none, false⟩
  | pow => ⟨"^", 4, none, true⟩
  | log => ⟨"log", 5, none, false⟩

def symbol (op : Operator) : String :=
  op.entry.symbol

/-- Whether a result may be remembered for both orders of the operands. -/
def isCommutative : Operator → Bool
  | mul => true
  | _ => false

def precedence? (op : Operator) : Arity → Option Nat
  | .unary => op.entry.unaryPrecedence
  | .binary => some op.entry.binaryPrecedence

/-- Whether an operator waiting for its right operand is applied before `incoming` is read on.
Equal precedence groups to the left unless the incoming operator groups to the right, and a form
that an operator does not have never yields. -/
def executesBefore (top incoming : Operator × Arity) : Bool :=
  match top.1.precedence? top.2, incoming.1.precedence? incoming.2 with
  | some t, some i => if incoming.1.entry.rightAssociative then i < t else i ≤ t
  | _, _ => false

/-- Computes the binary form; `log` takes its base first. -/
def apply (op : Operator) (lhs rhs : Binary64) : Binary64 :=
  match op with
  | add => lhs + rhs
  | sub => lhs - rhs
  | mul => lhs * rhs
  | div => lhs / rhs
  | pow => lhs.pow rhs
  | log => rhs.log / lhs.log

/-- Computes the unary form of a sign. -/
def applyUnary? (op : Operator) (operand : Binary64) : Option Binary64 :=
  match op with
  | add => some operand
  | sub => some (-operand)
  | _ => none

end Operator

end Reckoner
