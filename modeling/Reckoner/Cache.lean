import Std.Data.HashMap
import Reckoner.Operator
/-!
Remembered results of binary operations. A key holds the operator and the bit patterns of both
operands, so zeros of different sign are kept apart, and so is what is not a number.
-/
namespace Reckoner

namespace Cache

structure Key where
  op : Operator
  lhs : Binary64
  rhs : Binary64
deriving DecidableEq, Hashable, Repr

/-- The same operation with its operands exchanged. -/
def Key.reversed (key : Key) : Key :=
  ⟨key.op, key.rhs, key.lhs⟩

@[simp]
theorem Key.reversed_reversed (key : Key) : key.reversed.reversed = key := rfl

end Cache

/-- Results by key. Nothing is ever forgotten. -/
structure Cache where
  entries : Std.HashMap Cache.Key Binary64

namespace Cache

def empty : Cache := ⟨∅⟩

def lookup (cache : Cache) (key : Key) : Option Binary64 :=
  cache.entries[key]?

def store (cache : Cache) (key : Key) (value : Binary64) : Cache :=
  ⟨cache.entries.insert key value⟩

/-- Number of keys. A product counts twice unless its operands are the same. -/
def size (cache : Cache) : Nat :=
  cache.entries.size

def isEmpty (cache : Cache) : Bool :=
  cache.entries.isEmpty

@[simp]
theorem lookup_empty (key : Key) : empty.lookup key = none := by
  simp [empty, lookup]

theorem lookup_store (cache : Cache) (key : Key) (value : Binary64) (other : Key) :
    (cache.store key value).lookup other =
      if key = other then some value else cache.lookup other := by
  simp [lookup, store, Std.HashMap.getElem?_insert]

end Cache

/-- What an evaluation remembers: nothing at all, or a cache. -/
inductive Memory where
  | off
  | on (cache : Cache)

namespace Memory

/-- A memory that holds nothing yet. -/
def fresh (remember : Bool) : Memory :=
  if remember then on Cache.empty else off

def lookup : Memory → Cache.Key → Option Binary64
  | off, _ => none
  | on cache, key => cache.lookup key

def store : Memory → Cache.Key → Binary64 → Memory
  | off, _, _ => off
  | on cache, key, value => on (cache.store key value)

def size? : Memory → Option Nat
  | off => none
  | on cache => some cache.size

end Memory

end Reckoner
