import Reckoner.Expression
import Reckoner.Text.Line
/-!
Batches of files. Every line of a file is an expression of its own with an output file of its own;
one that fails leaves its message there and stops nothing. Only a file that cannot be read or
written is given up.
-/
namespace Reckoner

/-- What became of one input file: its output files in the order of the lines, or its failure. -/
structure FileReport where
  input : Path
  outputs : Except Failure (List Path)

structure Report where
  nanoseconds : Nat
  files : List FileReport

def FileReport.isFailure (r : FileReport) : Bool :=
  match r.outputs with
  | .ok _ => false
  | .error _ => true

namespace Report

def failures (r : Report) : List FileReport :=
  r.files.filter FileReport.isFailure

def isSuccess (r : Report) : Bool :=
  r.failures.isEmpty

end Report

/-- The same batch without and with a memory. -/
structure Benchmark where
  uncached : Report
  cached : Report

namespace Batch

/-- Evaluates lines from the given index on, writing each outcome before the next line is
looked at. -/
def writeLines (path : Path) (mode : Mode) (index : Nat) :
    List String → Job (Except Failure (List Path))
  | [] => return .ok []
  | line :: rest => do
    let outcome ← Expression.evaluate line
    if let .error fault := outcome then Job.note (.rejected path index fault) (pure ())
    let target := path.output index
    match ← Job.write target (outcome.render mode) pure with
    | .error fault => return .error (.write target fault)
    | .ok () => return (← writeLines path mode (index + 1) rest).map (target :: ·)

/-- Reads the lines of a file. -/
def readLines (path : Path) : Job (Except FileFault (List String)) := do
  match ← Job.read path pure with
  | .error fault => return .error fault
  | .ok bytes =>
    match Text.lines? bytes with
    | none => return .error .invalidData
    | some lines => return .ok lines

/-- Evaluates every line of a file. -/
def evaluateFile (path : Path) (mode : Mode) : Job (Except Failure (List Path)) := do
  match ← readLines path with
  | .error fault => return .error (.read path fault)
  | .ok lines =>
    Job.note (.opened path lines.length) (pure ())
    writeLines path mode 0 lines

def noteFailure (r : FileReport) : Job Unit :=
  match r.outputs with
  | .ok _ => return ()
  | .error failure => Job.note (.failed r.input failure) (pure ())

/-- Evaluates one file of a batch. -/
def processFile (mode : Mode) (path : Path) : Job FileReport := do
  let report : FileReport := ⟨path, ← evaluateFile path mode⟩
  noteFailure report
  return report

/-- Goes through all files so many times, and reports on the last. -/
def rounds (files : List Path) (mode : Mode) : Nat → Job (List FileReport)
  | 0 => return []
  | 1 => files.mapM (processFile mode)
  | n + 2 => do
    let _ ← files.mapM (processFile mode)
    rounds files mode (n + 1)

/-- Runs a batch in order. One memory serves all files and rounds. -/
def run (files : List Path) (count : Nat) (remember : Bool) (mode : Mode) : Job Report := do
  let started ← Job.clock pure
  let reports ← (rounds files mode count).withMemory (Memory.fresh remember)
  let nanoseconds := (← Job.clock pure) - started
  Job.note (.finished files.length count nanoseconds remember) (pure ())
  return ⟨nanoseconds, reports⟩

/-- For each file, the first file before it that has the same output files. -/
def clashesAfter (earlier : List Path) : List Path → List (Option Path)
  | [] => []
  | file :: rest =>
    earlier.find? (fun other => (other.output 0).same (file.output 0)) ::
      clashesAfter (earlier ++ [file]) rest

def clashes (files : List Path) : List (Option Path) :=
  clashesAfter [] files

/-- What one worker does. A file that clashes is left alone. -/
def worker (mode : Mode) (file : Path) (clash : Option Path) : Job FileReport :=
  match clash with
  | some other => return ⟨file, .error (.outputClash file other)⟩
  | none => return ⟨file, ← evaluateFile file mode⟩

/-- Workers for all files, to be run in any order of their steps. -/
def workers (files : List Path) (mode : Mode) : List (Job FileReport) :=
  (files.zip (clashes files)).map fun (file, clash) => worker mode file clash

/-- What is recorded once all workers are done. -/
def noteFailures (reports : List FileReport) : Job Unit :=
  reports.forM noteFailure

/-- Makes the report of workers that are done, from the time at which they were started. -/
def gather (started : Nat) (reports : List FileReport) : Job Report := do
  noteFailures reports
  let nanoseconds := (← Job.clock pure) - started
  return ⟨nanoseconds, reports⟩

/-- Runs the batch without memory, then with one. -/
def benchmark (files : List Path) (count : Nat) (mode : Mode) : Job Benchmark := do
  let uncached ← run files count false mode
  let cached ← run files count true mode
  return ⟨uncached, cached⟩

end Batch

end Reckoner
