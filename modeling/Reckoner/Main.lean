import Reckoner.Program
/-!
The executable: carries out commands on the actual disk, with workers as concurrent tasks.
-/
namespace Reckoner.Main

def fileFault : IO.Error → FileFault
  | .noFileOrDirectory .. => .notFound
  | .inappropriateType _ 21 _ => .isDirectory
  | .inappropriateType _ 20 _ => .notDirectory
  | e => .other (toString e)

/-- Carries out one step that may fail. -/
def attempt {α : Type} (action : IO α) : IO (Except FileFault α) :=
  try return .ok (← action)
  catch e => return .error (fileFault e)

/-- Carries out a job, with the given shared memory. -/
def perform {α : Type} (memory : IO.Ref Memory) (report : Record → IO Unit) : Job α → IO α
  | .done result => return result
  | .note record next => do
    report record
    perform memory report next
  | .lookup key next => do perform memory report (next ((← memory.get).lookup key))
  | .store key value next => do
    memory.modify (·.store key value)
    perform memory report next
  | .read path next => do perform memory report (next (← attempt (IO.FS.readBinFile path.text)))
  | .write path content next => do
    perform memory report (next (← attempt (IO.FS.writeFile path.text content)))
  | .clock next => do perform memory report (next (← IO.monoNanosNow))

/-- A time in seconds with three decimals. -/
def seconds (nanoseconds : Nat) : String :=
  let milliseconds := (nanoseconds + 500000) / 1000000
  let fraction := toString (milliseconds % 1000)
  toString (milliseconds / 1000) ++ "." ++
    String.ofList (List.replicate (3 - fraction.length) '0') ++ fraction

def showRecord (level : Level) (record : Record) : IO Unit :=
  if record.level.rank ≤ level.rank then
    IO.eprintln
      ("[" ++ record.level.name ++ "] " ++ record.message FileFault.description (seconds · ++ "s"))
  else return ()

def print : Printed → IO Unit
  | .out text => IO.print text
  | .err text => IO.eprint text
  | .failure failure => IO.eprintln ("error: " ++ failure.message FileFault.description)
  | .elapsed label nanoseconds =>
    IO.println
      ("Seconds elapsed for evaluation " ++ label ++ ": " ++ seconds nanoseconds ++ " seconds.")
  | .usage => IO.eprintln Reckoner.helpText

/-- Carries out a plan, with all workers at once. -/
def carryOut (report : Record → IO Unit) : Program.Plan → IO Result
  | .alone job => do perform (← IO.mkRef .off) report job
  | .together memory workers => do
    let shared ← IO.mkRef memory
    let started ← perform shared report (.clock .done)
    let tasks ← workers.mapM fun worker => IO.asTask (perform shared report worker)
    let reports ← tasks.mapM fun task => IO.ofExcept task.get
    perform shared report (Program.gather started reports)

def run (args : List String) : IO UInt32 := do
  let result ←
    match CommandLine.read args with
    | .error stop => pure (Program.stopped stop)
    | .ok (verbosity, command) =>
      let environment ← IO.getEnv "REPEAT_TIME"
      carryOut (showRecord (Settings.level verbosity)) (Program.plan environment command)
  result.printed.forM print
  return UInt32.ofNat result.exit

end Reckoner.Main

def main (args : List String) : IO UInt32 :=
  Reckoner.Main.run args
