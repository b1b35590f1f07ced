import Reckoner.Tree.Walk
/-!
Drawings of trees, one line for each node. The right subtree is drawn before the left one, and
connectors show which child a line starts.
-/
namespace Reckoner.Tree

/-- What stands before the label of a child, and before the lines below it. -/
structure Branch where
  connector : String
  continuation : String

def rightBranch : Branch := ⟨"├── ", "│   "⟩

def leftBranch : Branch := ⟨"└── ", "    "⟩

/-- A subtree that is still to draw: what stands before its own line and before those below. -/
structure Pending where
  tree : Tree
  before : String
  below : String

def Pending.child (p : Pending) (branch : Branch) (t : Tree) : Pending :=
  ⟨t, p.below ++ branch.connector, p.below ++ branch.continuation⟩

def Pending.line (p : Pending) : String :=
  p.before ++ p.tree.label ++ "\n"

/-- Subtrees to draw right after the line of `p`. -/
def Pending.children (p : Pending) : List Pending :=
  match p.tree with
  | leaf _ => []
  | left _ child => [p.child leftBranch child]
  | right _ child => [p.child rightBranch child]
  | both _ l r => [p.child rightBranch r, p.child leftBranch l]

/-- Lines of all pending subtrees, in order. A leaf has nothing below its line. -/
def linesFrom : List Pending → List String
  | [] => []
  | p :: rest =>
    if p.tree.isLeaf then p.line :: linesFrom rest
    else p.line :: linesFrom (p.children ++ rest)
termination_by pending => pendingSize (pending.map Pending.tree)
decreasing_by
  · have hpos := p.tree.size_pos
    simp only [List.map_cons, pendingSize_cons]
    omega
  · obtain ⟨t, before, below⟩ := p
    cases t with
    | leaf => simp [Pending.children, size]
    | left | right => simp [Pending.children, Pending.child, size]
    | both =>
      simp [Pending.children, Pending.child, size]
      omega

/-- The drawing of a tree, every line ended by a line feed. -/
def draw (t : Tree) : String :=
  String.join (linesFrom [⟨t, "", ""⟩])

end Reckoner.Tree
