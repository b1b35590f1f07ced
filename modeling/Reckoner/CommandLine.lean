import Reckoner.Path
import Reckoner.Settings
/-!
The command line: options before the command, then the command with its own options. Arguments are
read from left to right, and the first that is wrong, or that asks for help or the version, settles
the matter.
-/
namespace Reckoner.CommandLine

structure EvalOptions where
  expression : String
  cache : Bool
  json : Bool
deriving DecidableEq, Repr

structure RunOptions where
  files : List Path
  cache : Bool
  json : Bool
  parallel : Bool
deriving DecidableEq, Repr

structure BenchOptions where
  files : List Path
  rounds : Option Nat
deriving DecidableEq, Repr

inductive Command where
  | eval (options : EvalOptions)
  | run (options : RunOptions)
  | bench (options : BenchOptions)
deriving DecidableEq, Repr

/-- Why no command is carried out. -/
inductive Stop where
  | help
  | version
  | misuse
deriving DecidableEq, Repr

/-- What a command takes after its name. -/
inductive Operands where
  /-- One text, which may start with a hyphen. -/
  | one
  /-- At least one path. -/
  | paths
deriving DecidableEq, Repr

/-- The options and operands that a command knows. -/
structure Grammar where
  switches : List String
  counts : List String
  operands : Operands

/-- Arguments of a command as they were given. -/
structure Arguments where
  switches : List String := []
  counts : List (String × Nat) := []
  /-- Operands, the latest first. -/
  operands : List String := []

namespace Grammar

def evalGrammar : Grammar := ⟨["cache", "json"], [], .one⟩

def runGrammar : Grammar := ⟨["cache", "json", "parallel"], [], .paths⟩

def benchGrammar : Grammar := ⟨[], ["repeat"], .paths⟩

/-- Whether the next operand may start with a hyphen. -/
def takesHyphen (g : Grammar) (a : Arguments) : Bool :=
  g.operands == .one && a.operands.isEmpty

/-- Adds an operand. A path must not be empty, and a single operand is not repeated. -/
def operand (g : Grammar) (a : Arguments) (arg : String) : Except Stop Arguments :=
  match g.operands with
  | .one =>
    if a.operands.isEmpty then .ok { a with operands := [arg] } else .error .misuse
  | .paths =>
    if arg.isEmpty then .error .misuse else .ok { a with operands := arg :: a.operands }

/-- Sets a switch, which can be done once. -/
def switch (a : Arguments) (name : String) : Except Stop Arguments :=
  if a.switches.contains name then .error .misuse
  else .ok { a with switches := name :: a.switches }

/-- Sets an option that takes a count, which can be done once. -/
def count (a : Arguments) (name value : String) : Except Stop Arguments :=
  match Settings.signedCount? value.toList with
  | some n =>
    if a.counts.any (·.1 == name) then .error .misuse
    else .ok { a with counts := (name, n) :: a.counts }
  | none => .error .misuse

/-- Splits a long option into its name and the value after an equals sign. -/
def splitLong (option : List Char) : String × Option String :=
  match option.dropWhile (· != '=') with
  | [] => (String.ofList option, none)
  | _ :: value => (String.ofList (option.takeWhile (· != '=')), some (String.ofList value))

/-- Whether an argument can be the value of the option before it. -/
def isValue (arg : String) : Bool :=
  match arg.toList with
  | ['-'] => true
  | '-' :: _ => false
  | _ => true

/-- What becomes of short options, of which only the one for help is known. -/
def short (g : Grammar) (a : Arguments) (arg : String) (letters : List Char) :
    Except Stop Arguments :=
  if g.takesHyphen a && letters.any (· != 'h') then g.operand a arg
  else if letters.head? == some 'h' then .error .help
  else .error .misuse

/-- Reads the arguments of a command. -/
def read (g : Grammar) (a : Arguments) : List String → Except Stop Arguments
  | [] => .ok a
  | arg :: rest =>
    match arg.toList with
    | ['-', '-'] => rest.foldlM g.operand a
    | '-' :: '-' :: option =>
      match splitLong option with
      | (name, value) =>
        if name == "help" then if value.isSome then .error .misuse else .error .help
        else if g.switches.contains name then
          if value.isSome then .error .misuse
          else do g.read (← switch a name) rest
        else if g.counts.contains name then
          match value, rest with
          | some value, rest => do g.read (← count a name value) rest
          | none, [] => .error .misuse
          | none, value :: rest =>
            if isValue value then do g.read (← count a name value) rest else .error .misuse
        else if g.takesHyphen a then do g.read (← g.operand a arg) rest
        else .error .misuse
    | '-' :: letter :: letters => do g.read (← g.short a arg (letter :: letters)) rest
    | _ => do g.read (← g.operand a arg) rest

/-- Reads all arguments of a command, of which at least one operand is required. -/
def arguments (g : Grammar) (args : List String) : Except Stop Arguments := do
  let a ← g.read {} args
  if a.operands.isEmpty then throw .misuse
  return { a with operands := a.operands.reverse }

end Grammar

open Grammar in
/-- Reads the arguments after the name of a command. -/
def command (name : String) (args : List String) : Except Stop Command := do
  if name == "eval" then
    let a ← evalGrammar.arguments args
    return .eval ⟨a.operands.headD "", a.switches.contains "cache", a.switches.contains "json"⟩
  else if name == "run" then
    let a ← runGrammar.arguments args
    return .run ⟨a.operands.map Path.mk, a.switches.contains "cache", a.switches.contains "json",
      a.switches.contains "parallel"⟩
  else if name == "bench" then
    let a ← benchGrammar.arguments args
    return .bench ⟨a.operands.map Path.mk, a.counts.lookup "repeat"⟩
  else throw .misuse

/-- What help can be asked for by name. -/
def topics : List String := ["eval", "run", "bench", "help"]

/-- Reads letters before the command; each `v` makes the program more talkative. -/
def letters (verbosity : Nat) : List Char → Except Stop Nat
  | [] => .ok verbosity
  | letter :: rest =>
    if letter == 'v' then letters (min 255 (verbosity + 1)) rest
    else if letter == 'V' then .error .version
    else if letter == 'h' then .error .help
    else .error .misuse

/-- Reads a command line: how talkative the program is to be, and the command. -/
def readFrom (verbosity : Nat) : List String → Except Stop (Nat × Command)
  | [] => .error .misuse
  | arg :: rest =>
    match arg.toList with
    | ['-'] => .error .misuse
    | '-' :: '-' :: option =>
      let name := String.ofList option
      if name == "verbose" then readFrom (min 255 (verbosity + 1)) rest
      else if name == "version" then .error .version
      else if name == "help" then .error .help
      else .error .misuse
    | '-' :: options => do readFrom (← letters verbosity options) rest
    | _ =>
      if arg == "help" then
        if rest.isEmpty || (rest.length == 1 && rest.all topics.contains) then .error .help
        else .error .misuse
      else do return (verbosity, ← command arg rest)

def read (args : List String) : Except Stop (Nat × Command) :=
  readFrom 0 args

end Reckoner.CommandLine
