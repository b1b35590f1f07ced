import Reckoner.Batch
import Reckoner.CommandLine
import Reckoner.World
/-!
The program: what each command does, what it prints and how it exits.
-/
namespace Reckoner

/-- The program's name and version, as it shows them. -/
def versionText : String := "shunt 0.1.0\n"

def helpText : String :=
  "Evaluate arithmetic expressions and print their expression trees\n\n" ++
  "Usage: shunt [-v|--verbose] <COMMAND>\n\n" ++
  "Commands:\n" ++
  "  eval <EXPR> [--cache] [--json]                  Evaluate a single expression\n" ++
  "  run <FILES>... [--cache] [--json] [--parallel]  Evaluate every line of the given files\n" ++
  "  bench <FILES>... [--repeat <N>]                 Time the files without cache, then with it\n"

/-- A piece of output. -/
inductive Printed where
  | out (text : String)
  | err (text : String)
  | failure (failure : Failure)
  | elapsed (label : String) (nanoseconds : Nat)
  | usage

/-- What a command leaves: its exit code and its output in order. -/
structure Result where
  exit : Nat
  printed : List Printed

namespace Program

def withLineEnd (s : String) : String :=
  if s.toList.getLast? = some '\n' then s else s ++ "\n"

/-- Evaluates one expression. A failure of the text itself is its outcome; any other is also an
error of the program. -/
def eval (options : CommandLine.EvalOptions) : Job Result := do
  let outcome ← (Expression.evaluate options.expression).withMemory (Memory.fresh options.cache)
  let rendered := .out (withLineEnd (outcome.render (Mode.ofFlag options.json)))
  match outcome with
  | .ok _ => return ⟨0, [rendered]⟩
  | .error fault =>
    if fault.isInternal then
      return ⟨1, [rendered, .err ("error: internal evaluation failure: " ++ fault.message ++ "\n")]⟩
    else return ⟨1, [rendered]⟩

def printReport (r : FileReport) : Printed :=
  match r.outputs with
  | .ok outputs =>
    .out ("results for file " ++ r.input.text ++ ": [" ++
      ", ".intercalate (outputs.map Path.text) ++ "]\n")
  | .error failure => .failure failure

/-- The exit code and output for the files of a batch. -/
def result (report : Report) : Result :=
  ⟨if report.isSuccess then 0 else 2, report.files.map printReport⟩

def bench (options : CommandLine.BenchOptions) (environment : Option String) : Job Result :=
  match Settings.rounds options.rounds environment with
  | .error e => return ⟨2, [.err (e.message ++ "\n")]⟩
  | .ok rounds => do
    let benchmark ← Batch.benchmark options.files rounds .text
    let uncached := result benchmark.uncached
    let cached := result benchmark.cached
    return ⟨max uncached.exit cached.exit,
      uncached.printed ++ [.elapsed "without cache" benchmark.uncached.nanoseconds] ++
        cached.printed ++ [.elapsed "with cache" benchmark.cached.nanoseconds]⟩

/-- How a command is carried out: by one job, or by workers that share a memory. -/
inductive Plan where
  | alone (job : Job Result)
  | together (memory : Memory) (workers : List (Job FileReport))

/-- What is left to do when all workers are done. -/
def gather (started : Nat) (reports : List FileReport) : Job Result := do
  return result (← Batch.gather started reports)

def plan (environment : Option String) : CommandLine.Command → Plan
  | .eval options => .alone (eval options)
  | .run options =>
    let mode := Mode.ofFlag options.json
    if options.parallel then
      .together (Memory.fresh options.cache) (Batch.workers options.files mode)
    else .alone (do return result (← Batch.run options.files 1 options.cache mode))
  | .bench options => .alone (bench options environment)

/-- What is printed instead of carrying out a command. -/
def stopped : CommandLine.Stop → Result
  | .help => ⟨0, [.out helpText]⟩
  | .version => ⟨0, [.out versionText]⟩
  | .misuse => ⟨2, [.usage]⟩

/-- Carries out a plan in a world, with workers one after another. -/
def Plan.run (world : World) : Plan → Result × World
  | .alone job => job.run world
  | .together memory workers =>
    let (started, before) := (Job.clock pure).run world
    let (reports, after) := { before with memory }.runAll workers
    (gather started reports).run { after with memory := world.memory }

/-- Runs the program in a world; `environment` is the number of rounds set there. -/
def run (world : World) (environment : Option String) (args : List String) : Result × World :=
  match CommandLine.read args with
  | .error stop => (stopped stop, world)
  | .ok (_, command) => (plan environment command).run world

end Program

end Reckoner
