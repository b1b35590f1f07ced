import Reckoner.Cache
import Reckoner.Record
/-!
Jobs: computations that do one visible thing at a time. A job can be run against a memory and a
disk of its own, or take turns with others on shared ones, because it never does two visible things
at once.
-/
namespace Reckoner

/-- A computation of an `α`, up to its next visible step. -/
inductive Job (α : Type) where
  | done (result : α)
  | note (record : Record) (next : Job α)
  | lookup (key : Cache.Key) (next : Option Binary64 → Job α)
  | store (key : Cache.Key) (value : Binary64) (next : Job α)
  | read (path : Path) (next : Except FileFault ByteArray → Job α)
  | write (path : Path) (content : String) (next : Except FileFault Unit → Job α)
  | clock (next : Nat → Job α)

namespace Job

variable {α β : Type}

/-- Goes on with another job once this one is done. -/
def bind : Job α → (α → Job β) → Job β
  | done result, f => f result
  | note record next, f => note record (next.bind f)
  | lookup key next, f => lookup key fun answer => (next answer).bind f
  | store key value next, f => store key value (next.bind f)
  | read path next, f => read path fun answer => (next answer).bind f
  | write path content next, f => write path content fun answer => (next answer).bind f
  | clock next, f => clock fun answer => (next answer).bind f

instance : Monad Job where
  pure := done
  bind := bind

/-- Records in order. -/
def noteAll : List Record → Job Unit
  | [] => done ()
  | record :: rest => note record (noteAll rest)

/-- Runs the memory steps of a job against a memory of its own, so that only the other steps stay
visible. -/
def remembering (memory : Memory) : Job α → Job (α × Memory)
  | done result => done (result, memory)
  | note record next => note record (next.remembering memory)
  | lookup key next => (next (memory.lookup key)).remembering memory
  | store key value next => next.remembering (memory.store key value)
  | read path next => read path fun answer => (next answer).remembering memory
  | write path content next => write path content fun answer => (next answer).remembering memory
  | clock next => clock fun answer => (next answer).remembering memory

/-- Runs a job against a memory of its own that nobody needs afterwards. -/
def withMemory (memory : Memory) (job : Job α) : Job α :=
  (job.remembering memory).bind fun r => done r.1

theorem bind_done (job : Job α) : job.bind done = job := by
  induction job <;> simp_all [bind]

theorem bind_assoc {γ : Type} (job : Job α) (f : α → Job β) (g : β → Job γ) :
    (job.bind f).bind g = job.bind fun a => (f a).bind g := by
  induction job <;> simp_all [bind]

instance : LawfulMonad Job :=
  LawfulMonad.mk' Job (fun job => bind_done job) (fun _ _ => rfl) bind_assoc

end Job

end Reckoner
