import Reckoner.Number.Layout
/-!
Labelled binary trees. Either child may be missing: binary operators have both children, signs
only a right one, numbers none, and a tree that is read from a file may have any shape.
-/
namespace Reckoner

inductive Tree where
  | leaf (label : String)
  | left (label : String) (child : Tree)
  | right (label : String) (child : Tree)
  | both (label : String) (l r : Tree)
deriving DecidableEq, Repr

namespace Tree

/-- The leaf of a number. -/
def number (value : Binary64) : Tree :=
  leaf (numberText value)

def of (label : String) : Option Tree → Option Tree → Tree
  | none, none => leaf label
  | some l, none => left label l
  | none, some r => right label r
  | some l, some r => both label l r

def label : Tree → String
  | leaf label | left label _ | right label _ | both label _ _ => label

/-- The children from left to right. -/
def children : Tree → List Tree
  | leaf _ => []
  | left _ child | right _ child => [child]
  | both _ l r => [l, r]

def isLeaf : Tree → Bool
  | leaf _ => true
  | _ => false

/-- Number of nodes, by recursion. -/
def size : Tree → Nat
  | leaf _ => 1
  | left _ child | right _ child => child.size + 1
  | both _ l r => l.size + r.size + 1

/-- Number of nodes on the longest path from the root, by recursion. -/
def height : Tree → Nat
  | leaf _ => 1
  | left _ child | right _ child => child.height + 1
  | both _ l r => max l.height r.height + 1

theorem size_pos (t : Tree) : 0 < t.size := by
  cases t <;> simp [size]

end Tree

end Reckoner
