import Mathlib.Tactic
import Reckoner.Tree.Walk

/-!
# Walks and recursion

A walk that keeps its pending subtrees on a list comes to what the recursion over the tree says:
each pending subtree counts by itself, whatever was met before it and whatever is still to visit.
-/

namespace Reckoner.Proofs
open Reckoner.Tree

/-! ### Counting -/

/-- Every step counts the first node still to visit, so the two numbers come to the same. -/
lemma countFrom_eq (counted : Nat) (pending : List Tree) :
    countFrom counted pending = counted + pendingSize pending := by
  fun_induction countFrom counted pending with
  | case1 counted => rfl
  | case2 counted label pending ih =>
    rw [ih, pendingSize_cons, size]
    omega
  | case3 counted label child pending ih | case4 counted label child pending ih =>
    rw [ih, pendingSize_cons, pendingSize_cons, size]
    omega
  | case5 counted label l r pending ih =>
    rw [ih, pendingSize_cons, pendingSize_cons, pendingSize_cons, size]
    omega

theorem nodeCount_eq_size (t : Tree) : t.nodeCount = t.size := by
  rw [nodeCount, countFrom_eq, pendingSize_cons, pendingSize_nil]
  omega

/-! ### Levels -/

lemma height_pos (t : Tree) : 0 < t.height := by
  cases t <;> simp [height]

lemma depthFrom_cons (deepest : Nat) (t : Tree) (level : Nat) (pending : List (Tree × Nat)) :
    depthFrom deepest ((t, level) :: pending) =
      depthFrom (max deepest (level + t.height - 1)) pending := by
  induction t generalizing deepest level pending with
  | leaf label =>
    rw [depthFrom, height, Nat.add_sub_cancel]
  | left label child ih | right label child ih =>
    have hchild := height_pos child
    have hdeepest : max (max deepest level) (level + 1 + child.height - 1) =
        max deepest (level + (child.height + 1) - 1) := by omega
    rw [depthFrom, ih, height, hdeepest]
  | both label l r ihl ihr =>
    have hl := height_pos l
    have hr := height_pos r
    have hdeepest : max (max (max deepest level) (level + 1 + r.height - 1))
        (level + 1 + l.height - 1) =
          max deepest (level + (max l.height r.height + 1) - 1) := by omega
    rw [depthFrom, ihr, ihl, height, hdeepest]

theorem depth_eq_height (t : Tree) : t.depth = t.height := by
  rw [depth, depthFrom_cons, depthFrom]
  omega

lemma height_eq_children (t : Tree) : t.height = 1 + (t.children.map height).foldr max 0 := by
  cases t with
  | leaf => rfl
  | left | right | both =>
    simp only [height, children, List.map_cons, List.map_nil, List.foldr_cons, List.foldr_nil]
    omega

theorem depth_eq_children (t : Tree) : t.depth = 1 + (t.children.map depth).foldr max 0 := by
  have hdepth : depth = height := funext depth_eq_height
  rw [hdepth, ← height_eq_children]

end Reckoner.Proofs
