import Reckoner.Number.Layout
import Reckoner.Number.Literal
import Reckoner.Text.Blank
/-!
Raw lexemes: the text cut into pieces, without regard to what may follow what. Every character is
either skipped or belongs to exactly one item, and scanning goes on after a faulty item.
-/
namespace Reckoner

/-- What can be wrong with the lexemes of a text or with their order. -/
inductive LexErrorKind where
  | missingOperand
  | consecutiveUnary
  | implicitMultiplication
  | unbalancedParenthesis
  | invalidParenthesis
  | operatorBeforeClose
  | invalidLogStatement
  | invalidSeparator
  | invalidFloat
  | emptyExpression
  | invalidOperator
  | invalidInput
deriving DecidableEq, Repr

def LexErrorKind.message : LexErrorKind → String
  | missingOperand => "Binary operator needs two operands"
  | consecutiveUnary => "Cannot have two consecutive unary operators"
  | implicitMultiplication => "Does not support implicit multiply. Please add * explicitly"
  | unbalancedParenthesis => "Unbalanced parenthesis"
  | invalidParenthesis => "Invalid parenthesis"
  | operatorBeforeClose => "Invalid operators before )"
  | invalidLogStatement => "Invalid log statement"
  | invalidSeparator => "Invalid comma for the log statement"
  | invalidFloat => "Invalid floating point number"
  | emptyExpression => "Empty expression"
  | invalidOperator => "Invalid operator"
  | invalidInput => "Invalid input"

/-- A lexical error at a byte offset of the text. -/
structure LexError where
  kind : LexErrorKind
  offset : Nat
deriving DecidableEq, Repr

def LexError.message (e : LexError) : String :=
  e.kind.message ++ " at offset " ++ toString e.offset

inductive Lexeme where
  | plus
  | minus
  | star
  | slash
  | caret
  | leftParen
  | rightParen
  | comma
  | logOpen
  | strayLetter
  | number (value : Binary64)
deriving DecidableEq, Repr

namespace Lexeme

def name : Lexeme → String
  | plus => "Plus"
  | minus => "Minus"
  | star => "Star"
  | slash => "Slash"
  | caret => "Caret"
  | leftParen => "LeftParen"
  | rightParen => "RightParen"
  | comma => "Comma"
  | logOpen => "LogOpen"
  | strayLetter => "StrayLetter"
  | number _ => "Number"

/-- The name with the value, as log records show it. -/
def text : Lexeme → String
  | number value => "Number(" ++ numberText value ++ ")"
  | lexeme => lexeme.name

/-- A lexeme, or what is wrong with it, and the bytes that it spans. -/
structure Item where
  content : Except LexErrorKind Lexeme
  start : Nat
  stop : Nat

/-- The five blanks that may stand between lexemes. -/
def isSkipped (c : Char) : Bool :=
  c == ' ' || c == '\t' || c == '\r' || c == '\n' || c == '\x0c'

/-- What may continue a number after its first digit. Further dots are taken too, so that a bad
number is one item. -/
def continuesNumber (c : Char) : Bool :=
  c.isDigit || c == '.'

def ofNumber (literal : List Char) : Except LexErrorKind Lexeme :=
  if 1 < literal.count '.' then .error .invalidFloat else .ok (.number (Literal.value literal))

/-- The item that starts with `c`, and how many of the characters after `c` it takes. -/
def first (c : Char) (rest : List Char) : Except LexErrorKind Lexeme × Nat :=
  if c == '+' then (.ok plus, 0)
  else if c == '-' then (.ok minus, 0)
  else if c == '*' then (.ok star, 0)
  else if c == '/' then (.ok slash, 0)
  else if c == '^' then (.ok caret, 0)
  else if c == '(' then (.ok leftParen, 0)
  else if c == ')' then (.ok rightParen, 0)
  else if c == ',' then (.ok comma, 0)
  else if c == 'l' then
    if ['o', 'g', '('].isPrefixOf rest then (.ok logOpen, 3) else (.ok strayLetter, 0)
  else if c.isDigit then
    let tail := rest.takeWhile continuesNumber
    (ofNumber (c :: tail), tail.length)
  else (.error .invalidInput, 0)

/-- Items of a text that starts at byte `offset`. -/
def scanFrom (offset : Nat) : List Char → List Item
  | [] => []
  | c :: rest =>
    if isSkipped c then scanFrom (offset + c.utf8Size) rest
    else
      let found := first c rest
      let stop := offset + c.utf8Size + Text.byteLength (rest.take found.2)
      ⟨found.1, offset, stop⟩ :: scanFrom stop (rest.drop found.2)
termination_by s => s.length
decreasing_by
  all_goals simp only [List.length_drop, List.length_cons]; omega

def scan (text : String) : List Item :=
  scanFrom 0 text.toList

end Lexeme

end Reckoner
