import Reckoner.Fault
import Reckoner.Text.Quoted
/-!
Log records: what is recorded, at which level, and in which words.
-/
namespace Reckoner

inductive Level where
  | error
  | warn
  | info
  | debug
  | trace
deriving DecidableEq, Repr

namespace Level

def rank : Level → Nat
  | error => 1
  | warn => 2
  | info => 3
  | debug => 4
  | trace => 5

def name : Level → String
  | error => "ERROR"
  | warn => "WARN"
  | info => "INFO"
  | debug => "DEBUG"
  | trace => "TRACE"

end Level

inductive Record where
  | evaluating (text : String)
  | lexeme (found : Lexeme) (start stop : Nat)
  | tokenized (count : Nat)
  | token (taken : Token) (depth : Nat)
  | reordered (count : Nat)
  | cacheHit (op : Operator) (lhs rhs : Binary64)
  | evaluated (value : Binary64)
  | opened (path : Path) (count : Nat)
  | rejected (path : Path) (index : Nat) (fault : Fault)
  | failed (path : Path) (failure : Failure)
  | finished (files rounds : Nat) (nanoseconds : Nat) (remember : Bool)

namespace Record

def level : Record → Level
  | failed _ _ => .error
  | rejected _ _ fault => if fault.isInternal then .error else .info
  | finished _ _ _ _ => .info
  | evaluating _ | tokenized _ | reordered _ | evaluated _ | opened _ _ => .debug
  | lexeme _ _ _ | token _ _ | cacheHit _ _ _ => .trace

/-- The words of a record, given how file faults and times are written. -/
def message (describe : FileFault → String) (time : Nat → String) : Record → String
  | evaluating text => "evaluating " ++ Text.quoted text
  | lexeme found start stop =>
    "lexeme " ++ found.text ++ " at " ++ toString start ++ ".." ++ toString stop
  | tokenized count => "tokenized " ++ toString count ++ " tokens"
  | token taken depth => "token " ++ taken.text ++ ", stack depth " ++ toString depth
  | reordered count => "postfix sequence has " ++ toString count ++ " tokens"
  | cacheHit op lhs rhs =>
    "cache hit for " ++ numberText lhs ++ " " ++ op.symbol ++ " " ++ numberText rhs
  | evaluated value => "evaluated to " ++ numberText value
  | opened path count => path.text ++ ": " ++ toString count ++ " expressions"
  | rejected path index fault => path.text ++ ":" ++ toString index ++ ": " ++ fault.message
  | failed path failure =>
    "processing file " ++ path.text ++ " failed: " ++ failure.message describe
  | finished files rounds nanoseconds remember =>
    toString files ++ " file(s) x " ++ toString rounds ++ " round(s) in " ++ time nanoseconds ++
      " (cache " ++ (if remember then "on" else "off") ++ ")"

end Record

end Reckoner
