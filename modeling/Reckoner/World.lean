import Reckoner.Disk
import Reckoner.Job
/-!
What jobs run against: a memory and a disk, with a journal of what was recorded. No time passes.
-/
namespace Reckoner

structure World where
  memory : Memory
  disk : Disk
  /-- Records so far, the latest first. -/
  journal : List Record := []

/-- Runs a job to its end. -/
def Job.run {α : Type} : Job α → World → α × World
  | done result, world => (result, world)
  | note record next, world => next.run { world with journal := record :: world.journal }
  | lookup key next, world => (next (world.memory.lookup key)).run world
  | store key value next, world => next.run { world with memory := world.memory.store key value }
  | read path next, world => (next (world.disk.read path)).run world
  | write path content next, world =>
    match world.disk.write path content.toUTF8 with
    | .ok disk => (next (.ok ())).run { world with disk }
    | .error fault => (next (.error fault)).run world
  | clock next, world => (next 0).run world

/-- Runs a job that needs no files against a memory. -/
def Job.runOn {α : Type} (job : Job α) (memory : Memory) : α × Memory :=
  let (result, world) := job.run { memory, disk := Disk.empty [] }
  (result, world.memory)

/-- Runs jobs one after another. -/
def World.runAll {α : Type} (world : World) : List (Job α) → List α × World
  | [] => ([], world)
  | job :: rest =>
    let (result, world) := job.run world
    let (results, world) := world.runAll rest
    (result :: results, world)

end Reckoner
