import Reckoner.Number.Layout
import Reckoner.Operator
/-!
Tokens of an expression. The brackets of a logarithm are kept apart from plain parentheses.
-/
namespace Reckoner

inductive Token where
  | number (value : Binary64)
  | operator (op : Operator) (arity : Arity)
  | openParen
  | closeParen
  | openLog
  | closeLog
  | separator
deriving DecidableEq, Repr

namespace Token

/-- Whether an operand must follow. A separator makes no such demand. -/
def expectsOperand : Token → Bool
  | operator _ _ | openParen | openLog => true
  | _ => false

def isUnary : Token → Bool
  | operator _ .unary => true
  | _ => false

def isOperator : Token → Bool
  | operator _ _ => true
  | _ => false

def isOpenParen : Token → Bool
  | openParen => true
  | _ => false

def isOpenLog : Token → Bool
  | openLog => true
  | _ => false

/-- The tokens after which a parenthesis would multiply. -/
def endsOperand : Token → Bool
  | number _ | closeParen | closeLog => true
  | _ => false

def text : Token → String
  | number value => numberText value
  | operator op .unary => op.symbol ++ "u"
  | operator op .binary => op.symbol
  | openParen => "("
  | closeParen => ")"
  | openLog => "["
  | closeLog => "]"
  | separator => ","

end Token

end Reckoner
