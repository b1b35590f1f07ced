import Reckoner.Evaluation
import Reckoner.Tree.Drawing
import Reckoner.Tree.Json
/-!
Expressions from text to outcome, and the text of outcomes.
-/
namespace Reckoner

abbrev Outcome := Except Fault Evaluation

/-- How outcomes are written. -/
inductive Mode where
  | text
  | json
deriving DecidableEq, Repr

def Mode.ofFlag (json : Bool) : Mode :=
  if json then .json else .text

namespace Expression

/-- Records of the lexemes that are looked at, and of their number if all are accepted. -/
def lexicalRecords (text : String) : List Record :=
  (lexemesRead text).map (fun l => .lexeme l.1 l.2.1 l.2.2) ++
    match tokenize text with
    | .ok tokens => [.tokenized tokens.length]
    | .error _ => []

/-- Records of the tokens that are reordered, and of the length of the result. -/
def orderRecords (tokens : List Token) : List Record :=
  (stackDepths tokens).map (fun t => .token t.1 t.2) ++
    match toPostfixOrder tokens with
    | .ok sequence => [.reordered sequence.length]
    | .error _ => []

/-- Evaluates the text of one expression. -/
def evaluate (text : String) : Job Outcome := do
  Job.noteAll (.evaluating text :: lexicalRecords text)
  match tokenize text with
  | .error e => return .error (.lex e)
  | .ok tokens =>
    Job.noteAll (orderRecords tokens)
    match toPostfixOrder tokens with
    | .error e => return .error (.parse e)
    | .ok sequence => return (← Reckoner.evaluate sequence).mapError Fault.eval

end Expression

namespace Outcome

/-- A result as a JSON number, which infinite values and those that are not numbers lack. -/
def jsonNumber (x : Binary64) : Json :=
  if x.isNaN || x.isInfinite then .null
  else .number (Decimal.Layout.json.text x)

def toJson : Outcome → Json
  | .ok e => .ofMembers [("value", jsonNumber e.value), ("tree", e.tree.toJson)]
  | .error fault => .ofMembers [("error", .string fault.message)]

/-- The text of an outcome: the value above the drawing or the message, or one JSON object. -/
def render (mode : Mode) (outcome : Outcome) : String :=
  match mode, outcome with
  | .text, .ok e => numberText e.value ++ "\n" ++ e.tree.draw
  | .text, .error fault => fault.message
  | .json, outcome => (toJson outcome).write

end Outcome

end Reckoner
