import Reckoner.Number.Literal
import Reckoner.Record
import Reckoner.Text.Blank
/-!
Settings from the command line and the environment.
-/
namespace Reckoner.Settings

/-- A setting that cannot be used, with the text that it was given. -/
inductive SettingError where
  | invalidRepeat (text : String)
deriving DecidableEq, Repr

def SettingError.message : SettingError → String
  | invalidRepeat _ => "Invalid repeat time for benchmark"

/-- The number that a text of digits stands for, up to the given greatest one. -/
def natural? (greatest : Nat) (digits : List Char) : Option Nat :=
  if !digits.isEmpty && digits.all Char.isDigit then
    let n := Literal.digitsValue digits
    if n ≤ greatest then some n else none
  else none

def greatestCount : Nat := 1 <<< 32 - 1

/-- A count, with or without a plus sign. -/
def count? (s : List Char) : Option Nat :=
  match s with
  | '+' :: digits => natural? greatestCount digits
  | digits => natural? greatestCount digits

/-- A count that may also be written as a negative zero. -/
def signedCount? (s : List Char) : Option Nat :=
  match s with
  | '-' :: digits => natural? 0 digits
  | s => count? s

/-- The number of rounds: as the option says, else as the environment says, else one. -/
def rounds (option : Option Nat) (environment : Option String) : Except SettingError Nat :=
  match option, environment with
  | some n, _ => .ok n
  | none, none => .ok 1
  | none, some text =>
    match count? (Text.trim text.toList) with
    | some n => .ok n
    | none => .error (.invalidRepeat text)

/-- The level of the records that are shown. -/
def level (verbosity : Nat) : Level :=
  match verbosity with
  | 0 => .warn
  | 1 => .info
  | 2 => .debug
  | _ => .trace

end Reckoner.Settings
