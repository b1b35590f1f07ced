import Reckoner.Path
import Reckoner.Postfix
import Reckoner.Token.Reading
/-!
What can go wrong with an expression, with a file and with a setting.
-/
namespace Reckoner

/-- Why a postfix sequence has no value. -/
inductive EvalError where
  | insufficientOperands (op : Operator) (needed available : Nat)
  | unsupportedUnary (op : Operator)
  | unexpectedToken (token : Token)
  | leftoverOperands (count : Nat)
  | emptyExpression

def EvalError.message : EvalError → String
  | insufficientOperands op needed available =>
    "Logic error. " ++ op.symbol ++ " needs " ++ toString needed ++ " operand(s) but " ++
      toString available ++ " are available"
  | unsupportedUnary op => "Unary operator should be either + or -, found " ++ op.symbol
  | unexpectedToken token => "Unexpected token in postfix sequence: " ++ token.text
  | leftoverOperands count =>
    "Logic error. Expression left " ++ toString count ++ " operands on the stack"
  | emptyExpression => "Empty expression"

/-- Any failure of one expression. -/
inductive Fault where
  | lex (error : LexError)
  | parse (error : ParseError)
  | eval (error : EvalError)

namespace Fault

def message : Fault → String
  | lex error => error.message
  | parse error => error.message
  | eval error => error.message

/-- Whether the failure shows a defect of the stages before evaluation, rather than of the text. -/
def isInternal : Fault → Bool
  | eval _ => true
  | _ => false

end Fault

/-- Why a file cannot be read or written. -/
inductive FileFault where
  | notFound
  | isDirectory
  | notDirectory
  | invalidData
  | other (description : String)
deriving DecidableEq, Repr

def FileFault.description : FileFault → String
  | notFound => "No such file or directory"
  | isDirectory => "Is a directory"
  | notDirectory => "Not a directory"
  | invalidData => "stream did not contain valid UTF-8"
  | other description => description

/-- Any failure of one input file. -/
inductive Failure where
  | read (path : Path) (fault : FileFault)
  | write (path : Path) (fault : FileFault)
  | outputClash (path other : Path)
deriving DecidableEq, Repr

/-- The message of a failure, given how file faults are described. -/
def Failure.message (describe : FileFault → String) : Failure → String
  | read path fault => "cannot read " ++ path.text ++ ": " ++ describe fault
  | write path fault => "cannot write " ++ path.text ++ ": " ++ describe fault
  | outputClash path other =>
    path.text ++ " would overwrite the outputs of " ++ other.text

end Reckoner
