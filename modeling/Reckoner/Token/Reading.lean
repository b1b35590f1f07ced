import Reckoner.Lexeme
import Reckoner.Token
/-!
From lexemes to tokens. One lexeme is read at a time; what it means depends on the token before it
and on the groups that are still open.
-/
namespace Reckoner

/-- An open group, with the byte offset of its parenthesis. -/
inductive Group where
  | plain (openedAt : Nat)
  | logarithm (openedAt : Nat) (separated : Bool)
deriving DecidableEq, Repr

def Group.openedAt : Group → Nat
  | plain offset => offset
  | logarithm offset _ => offset

/-- How far the reading of a text has come. -/
structure Reading where
  /-- Tokens so far, the latest first. -/
  tokens : List Token := []
  /-- Open groups, the innermost first. -/
  groups : List Group := []

namespace Reading

def fail {α : Type} (kind : LexErrorKind) (offset : Nat) : Except LexError α :=
  .error ⟨kind, offset⟩

def push (r : Reading) (token : Token) : Reading :=
  { r with tokens := token :: r.tokens }

/-- Reads `*`, `/` or `^`, which need an operand on both sides: a token before them that ends or
separates operands, and something visible after them. -/
def binaryOnly (last : Option Nat) (r : Reading) (op : Operator) (offset : Nat) :
    Except LexError Reading :=
  if offset = 0 ∨ some offset = last then fail .missingOperand offset
  else
    match r.tokens with
    | [] => fail .missingOperand offset
    | previous :: _ =>
      if previous.expectsOperand then fail .missingOperand offset
      else .ok (r.push (.operator op .binary))

/-- Reads `+` or `-`, a sign wherever an operand is expected. -/
def plusMinus (r : Reading) (op : Operator) (offset : Nat) : Except LexError Reading :=
  match r.tokens with
  | [] => .ok (r.push (.operator op .unary))
  | previous :: _ =>
    if !previous.expectsOperand then .ok (r.push (.operator op .binary))
    else if previous.isUnary then fail .consecutiveUnary offset
    else .ok (r.push (.operator op .unary))

def leftParen (r : Reading) (offset : Nat) : Except LexError Reading :=
  if r.tokens.head?.any Token.endsOperand then fail .implicitMultiplication offset
  else .ok { tokens := .openParen :: r.tokens, groups := .plain offset :: r.groups }

/-- Reads the opening of a logarithm, which is two tokens: the operator and its bracket. -/
def logOpen (r : Reading) (offset : Nat) : Reading :=
  { tokens := .openLog :: .operator .log .binary :: r.tokens
    groups := .logarithm offset false :: r.groups }

def rightParen (r : Reading) (offset : Nat) : Except LexError Reading :=
  match r.groups with
  | [] => fail .invalidParenthesis offset
  | group :: outer =>
    if r.tokens.head?.any Token.isOperator then fail .operatorBeforeClose offset
    else if group.openedAt + 1 = offset then fail .invalidParenthesis offset
    else
      match group with
      | .logarithm _ false => fail .invalidLogStatement offset
      | .logarithm _ true => .ok { tokens := .closeLog :: r.tokens, groups := outer }
      | .plain _ => .ok { tokens := .closeParen :: r.tokens, groups := outer }

def comma (r : Reading) (offset : Nat) : Except LexError Reading :=
  match r.groups with
  | .logarithm openedAt false :: outer =>
    .ok { tokens := .separator :: r.tokens, groups := .logarithm openedAt true :: outer }
  | _ => fail .invalidSeparator offset

/-- Reads one lexeme; `last` is the offset of the last visible character of the text. -/
def lexeme (last : Option Nat) (r : Reading) (found : Lexeme) (start stop : Nat) :
    Except LexError Reading :=
  match found with
  | .plus => r.plusMinus .add start
  | .minus => r.plusMinus .sub start
  | .star => r.binaryOnly last .mul start
  | .slash => r.binaryOnly last .div start
  | .caret => r.binaryOnly last .pow start
  | .leftParen => r.leftParen start
  | .rightParen => r.rightParen start
  | .comma => r.comma start
  | .number value => .ok (r.push (.number value))
  | .logOpen => .ok (r.logOpen (stop - 1))
  | .strayLetter => fail .invalidOperator start

def item (last : Option Nat) (r : Reading) (i : Lexeme.Item) : Except LexError Reading :=
  match i.content with
  | .ok found => r.lexeme last found i.start i.stop
  | .error kind => fail kind i.start

/-- The tokens in order, once all items are read. -/
def finish (r : Reading) : Except LexError (List Token) :=
  match r.groups with
  | group :: _ => fail .unbalancedParenthesis group.openedAt
  | [] => if r.tokens.isEmpty then fail .emptyExpression 0 else .ok r.tokens.reverse

/-- Items that are read before the first error, that of the erring lexeme included. -/
def accepted (last : Option Nat) (r : Reading) : List Lexeme.Item → List (Lexeme × Nat × Nat)
  | [] => []
  | i :: rest =>
    match i.content with
    | .error _ => []
    | .ok found =>
      (found, i.start, i.stop) ::
        match r.item last i with
        | .ok next => accepted last next rest
        | .error _ => []

end Reading

/-- The tokens of a text. -/
def tokenize (text : String) : Except LexError (List Token) := do
  let last := Text.lastVisible? text.toList
  let reading ← (Lexeme.scan text).foldlM (Reading.item last) {}
  reading.finish

/-- The lexemes that `tokenize` looks at, with their spans. -/
def lexemesRead (text : String) : List (Lexeme × Nat × Nat) :=
  Reading.accepted (Text.lastVisible? text.toList) {} (Lexeme.scan text)

end Reckoner
