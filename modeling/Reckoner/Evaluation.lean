import Reckoner.Job
import Reckoner.Tree
/-!
Evaluation of postfix sequences. One pass over the sequence gives both the value and the tree of
the computation; only values go through the memory.
-/
namespace Reckoner

/-- The result of an expression: its value, which may be infinite or not a number, and its tree. -/
structure Evaluation where
  value : Binary64
  tree : Tree

namespace Evaluation

/-- Remembers a result for the call's key, and for the reversed one if the order is immaterial. -/
def remember (op : Operator) (key : Cache.Key) (value : Binary64) : Job Binary64 :=
  if op.isCommutative then .store key value (.store key.reversed value (.done value))
  else .store key value (.done value)

/-- The result of a binary operation, remembered or computed. A commutative operation is looked up
in the other order as well. -/
def binary (op : Operator) (lhs rhs : Binary64) : Job Binary64 :=
  let key : Cache.Key := ⟨op, lhs, rhs⟩
  .lookup key fun
    | some value => .note (.cacheHit op lhs rhs) (.done value)
    | none =>
      if op.isCommutative then
        .lookup key.reversed fun
          | some value => .note (.cacheHit op rhs lhs) (.done value)
          | none => remember op key (op.apply lhs rhs)
      else remember op key (op.apply lhs rhs)

/-- The result that a stack of operands amounts to. -/
def ofStack : List Evaluation → Except EvalError Evaluation
  | [] => .error .emptyExpression
  | [result] => .ok result
  | stack => .error (.leftoverOperands stack.length)

/-- Evaluates the rest of a sequence with the operands at hand, the latest first. -/
def run (stack : List Evaluation) : List Token → Job (Except EvalError Evaluation)
  | [] =>
    match ofStack stack with
    | .ok result => .note (.evaluated result.value) (.done (.ok result))
    | .error e => .done (.error e)
  | .number value :: rest => run (⟨value, .number value⟩ :: stack) rest
  | .operator op .unary :: rest =>
    match stack with
    | [] => .done (.error (.insufficientOperands op 1 0))
    | operand :: below =>
      match op.applyUnary? operand.value with
      | none => .done (.error (.unsupportedUnary op))
      | some value => run (⟨value, .right op.symbol operand.tree⟩ :: below) rest
  | .operator op .binary :: rest =>
    match stack with
    | rhs :: lhs :: below =>
      (binary op lhs.value rhs.value).bind fun value =>
        run (⟨value, .both op.symbol lhs.tree rhs.tree⟩ :: below) rest
    | short => .done (.error (.insufficientOperands op 2 short.length))
  | token :: _ => .done (.error (.unexpectedToken token))

end Evaluation

/-- Evaluates a postfix sequence. -/
def evaluate (sequence : List Token) : Job (Except EvalError Evaluation) :=
  Evaluation.run [] sequence

end Reckoner
