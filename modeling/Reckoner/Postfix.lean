import Reckoner.Token
/-!
Postfix order. Operators and opening brackets wait on a stack until what comes later decides where
they belong; operands go straight to the output.
-/
namespace Reckoner

/-- Why a token sequence has no postfix order. -/
inductive ParseError where
  | invalidParenthesis
  | unmatchedLogBracket
  | bracketWithoutLog
deriving DecidableEq, Repr

def ParseError.message : ParseError → String
  | invalidParenthesis => "Invalid parenthesis"
  | unmatchedLogBracket => "Invalid log: unmatched log bracket"
  | bracketWithoutLog => "Invalid log: bracket without log operator"

/-- The two tracks on which tokens are reordered. -/
structure Yard where
  /-- Tokens already in order, the latest first. -/
  output : List Token := []
  /-- Tokens that wait, the latest first. -/
  stack : List Token := []

namespace Yard

/-- Whether a waiting token is an operator that is applied before `incoming` is read on. -/
def yields (incoming : Operator) : Token → Bool
  | .operator op arity => Operator.executesBefore (op, arity) (incoming, .binary)
  | _ => false

/-- Moves waiting tokens to the output for as long as `p` holds of the top one. -/
def release (y : Yard) (p : Token → Bool) : Yard :=
  ⟨(y.stack.takeWhile p).reverse ++ y.output, y.stack.dropWhile p⟩

def wait (y : Yard) (token : Token) : Yard :=
  { y with stack := token :: y.stack }

/-- Closes a plain group: everything above its parenthesis is output, the parenthesis goes. -/
def closeParen (y : Yard) : Except ParseError Yard :=
  let y := y.release (!·.isOpenParen)
  match y.stack with
  | [] => .error .invalidParenthesis
  | _ :: below => .ok { y with stack := below }

/-- Closes a logarithm: the operator below its bracket is output last. -/
def closeLog (y : Yard) : Except ParseError Yard :=
  let y := y.release (!·.isOpenLog)
  match y.stack with
  | [] => .error .unmatchedLogBracket
  | _ :: .operator .log arity :: below =>
    .ok { output := .operator .log arity :: y.output, stack := below }
  | _ :: _ => .error .bracketWithoutLog

/-- Takes one token. A separator completes the base and leaves the bracket open. -/
def token (y : Yard) : Token → Except ParseError Yard
  | .number value => .ok { y with output := .number value :: y.output }
  | .openParen => .ok (y.wait .openParen)
  | .openLog => .ok (y.wait .openLog)
  | .operator .log arity => .ok (y.wait (.operator .log arity))
  | .operator op .unary => .ok (y.wait (.operator op .unary))
  | .operator op .binary => .ok ((y.release (yields op)).wait (.operator op .binary))
  | .closeParen => y.closeParen
  | .closeLog => y.closeLog
  | .separator => .ok (y.release (!·.isOpenLog))

/-- The output once all tokens are taken: what still waits follows, the latest first. -/
def finish (y : Yard) : List Token :=
  y.output.reverse ++ y.stack

/-- The tokens that are taken up to an error, each with the number that wait before it. -/
def depths (y : Yard) : List Token → List (Token × Nat)
  | [] => []
  | t :: rest =>
    (t, y.stack.length) ::
      match y.token t with
      | .ok next => depths next rest
      | .error _ => []

end Yard

/-- The postfix order of a token sequence. -/
def toPostfixOrder (tokens : List Token) : Except ParseError (List Token) := do
  let yard ← tokens.foldlM Yard.token {}
  return yard.finish

/-- The tokens that `toPostfixOrder` takes, each with the number that wait before it. -/
def stackDepths (tokens : List Token) : List (Token × Nat) :=
  Yard.depths {} tokens

end Reckoner
