import Reckoner.Expression
import Reckoner.World
/-!
Handles on memories. A clone of a handle either gets a copy of what the handle remembers so far, or
shares the memory with it from then on.
-/
namespace Reckoner

/-- What can be asked of a memory through a handle. -/
inductive Call where
  | operation (op : Operator) (lhs rhs : Binary64)
  | lookup (key : Cache.Key)
  | store (key : Cache.Key) (value : Binary64)
  | expression (text : String)
  | sequence (tokens : List Token)

inductive Answer where
  | value (value : Binary64)
  | found (value : Option Binary64)
  | stored
  | outcome (outcome : Outcome)
  | evaluation (result : Except EvalError Evaluation)

def Call.job : Call → Job Answer
  | operation op lhs rhs => return .value (← Evaluation.binary op lhs rhs)
  | lookup key => .lookup key fun value => return .found value
  | store key value => .store key value (return .stored)
  | expression text => return .outcome (← Expression.evaluate text)
  | sequence tokens => return .evaluation (← evaluate tokens)

structure Handles where
  /-- Whether clones share the memory of what they are cloned from. -/
  shared : Bool
  memories : List Memory
  /-- For each handle, the place of its memory. -/
  places : List Nat

namespace Handles

/-- A single handle, on the given memory. -/
def new (shared : Bool) (memory : Memory) : Handles :=
  ⟨shared, [memory], [0]⟩

def place (h : Handles) (handle : Nat) : Nat :=
  h.places.getD handle 0

def memory (h : Handles) (handle : Nat) : Memory :=
  h.memories.getD (h.place handle) .off

/-- Clones a handle. The new one is the last. -/
def clone (h : Handles) (handle : Nat) : Handles :=
  if h.shared then { h with places := h.places ++ [h.place handle] }
  else
    { h with
      memories := h.memories ++ [h.memory handle]
      places := h.places ++ [h.memories.length] }

/-- Makes a call through a handle. -/
def call (h : Handles) (handle : Nat) (c : Call) : Answer × Handles :=
  let (answer, memory) := c.job.runOn (h.memory handle)
  (answer, { h with memories := h.memories.set (h.place handle) memory })

end Handles

end Reckoner
