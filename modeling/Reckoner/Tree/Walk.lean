import Reckoner.Tree
/-!
Walks over a tree that keep the subtrees still to visit on a list, so that no tree is too deep
for them. The size of the pending subtrees shrinks with every node.
-/
namespace Reckoner.Tree

def pendingSize : List Tree → Nat
  | [] => 0
  | t :: pending => t.size + pendingSize pending

@[simp]
theorem pendingSize_nil : pendingSize [] = 0 := rfl

@[simp]
theorem pendingSize_cons (t : Tree) (pending : List Tree) :
    pendingSize (t :: pending) = t.size + pendingSize pending := rfl

/-- Counts the nodes of all pending subtrees. -/
def countFrom (counted : Nat) : List Tree → Nat
  | [] => counted
  | leaf _ :: pending => countFrom (counted + 1) pending
  | left _ child :: pending | right _ child :: pending => countFrom (counted + 1) (child :: pending)
  | both _ l r :: pending => countFrom (counted + 1) (r :: l :: pending)
termination_by pending => pendingSize pending
decreasing_by
  all_goals simp only [pendingSize_cons, size]; omega

def nodeCount (t : Tree) : Nat :=
  countFrom 0 [t]

/-- The deepest level met so far or in any pending subtree, each of which has its level. -/
def depthFrom (deepest : Nat) : List (Tree × Nat) → Nat
  | [] => deepest
  | (leaf _, level) :: pending => depthFrom (max deepest level) pending
  | (left _ child, level) :: pending | (right _ child, level) :: pending =>
    depthFrom (max deepest level) ((child, level + 1) :: pending)
  | (both _ l r, level) :: pending =>
    depthFrom (max deepest level) ((r, level + 1) :: (l, level + 1) :: pending)
termination_by pending => pendingSize (pending.map Prod.fst)
decreasing_by
  all_goals simp only [List.map_cons, pendingSize_cons, size]; omega

/-- Length of the longest path from the root to a leaf, counting nodes. -/
def depth (t : Tree) : Nat :=
  depthFrom 0 [(t, 1)]

end Reckoner.Tree
