import Mathlib.Tactic
import Reckoner.Proofs.Drawings
import Reckoner.Proofs.LineReading
import Reckoner.Proofs.TreeWalks

/-!
# Nodes as they are drawn

Every line of a drawing belongs to a node: its label stands behind one unit for each branch on the
way from the root, the connector of the last branch and the continuations of those before it. The
nodes are as many as a walk counts, and the longest way is one branch shorter than the tree is deep.
-/

namespace Reckoner.Proofs
open Reckoner.Tree

/-- The side of its parent that a node is on. -/
inductive Side where
  | left
  | right
deriving DecidableEq

def Side.branch : Side → Branch
  | left => leftBranch
  | right => rightBranch

/-- A node with the way to it from the root. -/
structure DrawnNode where
  path : List Side
  label : String
deriving DecidableEq

/-- The units in front of a label. -/
def indentation : List Side → List String
  | [] => []
  | [side] => [side.branch.connector]
  | side :: next :: path => side.branch.continuation :: indentation (next :: path)

namespace DrawnNode

/-- Number of branches on the way from the root. -/
def level (node : DrawnNode) : Nat :=
  node.path.length

def line (node : DrawnNode) : String :=
  String.join (indentation node.path) ++ node.label

/-- A node of a child, seen from the parent of that child. -/
def below (side : Side) (node : DrawnNode) : DrawnNode :=
  { node with path := side :: node.path }

end DrawnNode

/-- The nodes of a tree in the order of the drawing. -/
def drawnNodes : Tree → List DrawnNode
  | leaf label => [⟨[], label⟩]
  | left label child => ⟨[], label⟩ :: (drawnNodes child).map (.below .left)
  | right label child => ⟨[], label⟩ :: (drawnNodes child).map (.below .right)
  | both label l r =>
    ⟨[], label⟩ :: ((drawnNodes r).map (.below .right) ++ (drawnNodes l).map (.below .left))

@[simp]
lemma level_below (side : Side) (node : DrawnNode) :
    (node.below side).level = node.level + 1 := rfl

/-! ### Indentation -/

lemma length_indentation (path : List Side) : (indentation path).length = path.length := by
  induction path using indentation.induct with
  | case1 | case2 => rfl
  | case3 side next path ih =>
    rw [indentation, List.length_cons, ih]
    rfl

lemma length_unit {path : List Side} : ∀ unit ∈ indentation path, unit.length = 4 := by
  have hconnector : ∀ side : Side, side.branch.connector.length = 4 := by rintro ⟨⟩ <;> rfl
  have hcontinuation : ∀ side : Side, side.branch.continuation.length = 4 := by rintro ⟨⟩ <;> rfl
  induction path using indentation.induct with
  | case1 => nofun
  | case2 side => exact List.forall_mem_singleton.mpr (hconnector side)
  | case3 side next path ih => exact List.forall_mem_cons.mpr ⟨hcontinuation side, ih⟩

/-! ### The lines of the nodes -/

lemma line_root (label : String) : (⟨[], label⟩ : DrawnNode).line = label := by
  simp [DrawnNode.line, indentation]

lemma line_below_root (side : Side) (label : String) :
    (DrawnNode.below side ⟨[], label⟩).line = side.branch.connector ++ label := by
  simp [DrawnNode.line, DrawnNode.below, indentation]

lemma line_below {node : DrawnNode} (h : node.path ≠ []) (side : Side) :
    (node.below side).line = side.branch.continuation ++ node.line := by
  obtain ⟨path, label⟩ := node
  cases path with
  | nil => exact (h rfl).elim
  | cons next path =>
    simp only [DrawnNode.line, DrawnNode.below, indentation, String.join_cons, String.append_assoc]

/-- Only the root is at the end of no branch, and it comes first. -/
lemma exists_drawnNodes (t : Tree) :
    ∃ rest, drawnNodes t = ⟨[], t.label⟩ :: rest ∧ ∀ node ∈ rest, node.path ≠ [] := by
  have hbelow (side : Side) (child : Tree) :
      ∀ node ∈ (drawnNodes child).map (DrawnNode.below side), node.path ≠ [] := by
    intro node hnode
    obtain ⟨inner, _, rfl⟩ := List.mem_map.mp hnode
    exact List.cons_ne_nil _ _
  cases t with
  | leaf label => exact ⟨[], rfl, nofun⟩
  | left label child => exact ⟨_, rfl, hbelow .left child⟩
  | right label child => exact ⟨_, rfl, hbelow .right child⟩
  | both label l r =>
    exact ⟨_, rfl, List.forall_mem_append.mpr ⟨hbelow .right r, hbelow .left l⟩⟩

/-- A branch stands in front of the lines of its subtree as a unit of each. -/
lemma map_line_below (side : Side) (t : Tree) :
    ((drawnNodes t).map (.below side)).map DrawnNode.line =
      branched side.branch ((drawnNodes t).map DrawnNode.line) := by
  obtain ⟨rest, hnodes, hrest⟩ := exists_drawnNodes t
  simp only [hnodes, List.map_cons, line_root, line_below_root, branched, placed_cons,
    List.map_map, List.cons.injEq, true_and]
  exact List.map_congr_left fun node hnode => line_below (hrest node hnode) side

theorem rows_eq_lines (t : Tree) : rows t = (drawnNodes t).map DrawnNode.line := by
  induction t with
  | leaf label => simp only [rows, drawnNodes, List.map_cons, line_root, List.map_nil]
  | left label child ih | right label child ih =>
    rw [rows, ih, drawnNodes, List.map_cons, line_root, map_line_below, Side.branch]
  | both label l r ihl ihr =>
    rw [rows, ihl, ihr, drawnNodes, List.map_cons, line_root, List.map_append, map_line_below,
      map_line_below, Side.branch, Side.branch]

/-! ### Count and levels -/

lemma length_drawnNodes (t : Tree) : (drawnNodes t).length = t.size := by
  induction t with
  | leaf label => rfl
  | left label child ih | right label child ih =>
    rw [drawnNodes, List.length_cons, List.length_map, ih, size]
  | both label l r ihl ihr =>
    rw [drawnNodes, List.length_cons, List.length_append, List.length_map, List.length_map, ihl,
      ihr, size, Nat.add_comm r.size]

lemma level_lt_height {t : Tree} {node : DrawnNode} (h : node ∈ drawnNodes t) :
    node.level < t.height := by
  induction t generalizing node with
  | leaf label =>
    obtain rfl := List.mem_singleton.mp h
    exact height_pos _
  | left label child ih | right label child ih =>
    rcases List.mem_cons.mp h with rfl | h
    · exact height_pos _
    · obtain ⟨inner, hinner, rfl⟩ := List.mem_map.mp h
      exact Nat.succ_lt_succ (ih hinner)
  | both label l r ihl ihr =>
    rcases List.mem_cons.mp h with rfl | h
    · exact height_pos _
    · rcases List.mem_append.mp h with h | h
      · obtain ⟨inner, hinner, rfl⟩ := List.mem_map.mp h
        have hlevel := ihr hinner
        rw [level_below, height]
        omega
      · obtain ⟨inner, hinner, rfl⟩ := List.mem_map.mp h
        have hlevel := ihl hinner
        rw [level_below, height]
        omega

/-- Some node is as deep as the tree. -/
lemma exists_deepest (t : Tree) : ∃ node ∈ drawnNodes t, node.level + 1 = t.height := by
  induction t with
  | leaf label => exact ⟨⟨[], label⟩, List.mem_cons_self, rfl⟩
  | left label child ih | right label child ih =>
    obtain ⟨node, hnode, hlevel⟩ := ih
    exact ⟨_, List.mem_cons_of_mem _ (List.mem_map_of_mem hnode), congrArg Nat.succ hlevel⟩
  | both label l r ihl ihr =>
    rcases Nat.le_total l.height r.height with hle | hle
    · obtain ⟨node, hnode, hlevel⟩ := ihr
      refine ⟨node.below .right, ?_, ?_⟩
      · exact List.mem_cons_of_mem _ (List.mem_append_left _ (List.mem_map_of_mem hnode))
      · rw [level_below, hlevel, height, Nat.max_eq_right hle]
    · obtain ⟨node, hnode, hlevel⟩ := ihl
      refine ⟨node.below .left, ?_, ?_⟩
      · exact List.mem_cons_of_mem _ (List.mem_append_right _ (List.mem_map_of_mem hnode))
      · rw [level_below, hlevel, height, Nat.max_eq_left hle]

lemma max_level (t : Tree) : ((drawnNodes t).map DrawnNode.level).max? = some (t.depth - 1) := by
  rw [List.max?_eq_some_iff, depth_eq_height]
  constructor
  · obtain ⟨node, hnode, hlevel⟩ := exists_deepest t
    rw [← hlevel, Nat.add_sub_cancel]
    exact List.mem_map_of_mem hnode
  · intro level hmem
    obtain ⟨node, hnode, rfl⟩ := List.mem_map.mp hmem
    exact Nat.le_sub_one_of_lt (level_lt_height hnode)

/-! ### From the text to the lines -/

/-- Rows are lines to a reader who takes a return before the line feed for a part of the ending. -/
lemma length_lines_ended {lines : List String} (h : ∀ line ∈ lines, OneLine line) :
    (Text.lines (String.join (lines.map (· ++ "\n")))).length = lines.length := by
  induction lines with
  | nil => rfl
  | cons line rest ih =>
    obtain ⟨hline, hrest⟩ := List.forall_mem_cons.mp h
    rw [List.map_cons, String.join_cons, lines_append_lineFeed hline, List.length_cons, ih hrest,
      List.length_cons]

/-- The walks that keep their pending subtrees on a list come to what recursion says of a tree of
any shape. If no label ends a line, the drawing has a line for every node: its label, behind a unit
of four characters for every branch on the way from the root, of which the deepest node has one less
than the tree is deep. -/
theorem walks_follow_recursion (t : Tree) :
    t.draw = String.join ((rows t).map (· ++ "\n")) ∧
      t.nodeCount = t.size ∧
      t.depth = 1 + (t.children.map depth).foldr max 0 ∧
      (OneLined t →
        (t.draw.split '\n').toList.map String.Slice.copy =
            (drawnNodes t).map DrawnNode.line ++ [""] ∧
          (Text.lines t.draw).length = t.nodeCount) ∧
      (drawnNodes t).length = t.nodeCount ∧
      (∀ node ∈ drawnNodes t, (indentation node.path).length = node.level ∧
        ∀ unit ∈ indentation node.path, unit.length = 4) ∧
      ((drawnNodes t).map DrawnNode.level).max? = some (t.depth - 1) := by
  have hcount : (drawnNodes t).length = t.nodeCount := by
    rw [length_drawnNodes, nodeCount_eq_size]
  refine ⟨draw_eq t, nodeCount_eq_size t, depth_eq_children t, fun hlined => ⟨?_, ?_⟩, hcount,
    fun node _ => ⟨length_indentation node.path, length_unit⟩, max_level t⟩
  · rw [split_draw hlined, rows_eq_lines]
  · rw [draw_eq, length_lines_ended hlined.rows, rows_eq_lines, List.length_map, hcount]

/-- Nodes with one child on either side, and labels that look like a branch, a return and
nothing. -/
def lopsided : Tree :=
  both "+" (left "├── " (leaf "1.0\r")) (right "-" (right "" (leaf "2.0")))

/-- The number on the right of `lopsided`. -/
def lopsidedDeepest : DrawnNode :=
  ⟨[.right, .right, .right], "2.0"⟩

theorem walks_over_lopsided :
    OneLined lopsided ∧
      lopsided.draw = "+\n├── -\n│   ├── \n│   │   ├── 2.0\n└── ├── \n    └── 1.0\r\n" ∧
      (lopsided.draw.split '\n').toList.map String.Slice.copy =
        ["+", "├── -", "│   ├── ", "│   │   ├── 2.0", "└── ├── ", "    └── 1.0\r", ""] ∧
      (Text.lines lopsided.draw).length = 6 ∧
      lopsided.nodeCount = 6 ∧ lopsided.depth = 4 ∧
      lopsidedDeepest ∈ drawnNodes lopsided ∧ (indentation lopsidedDeepest.path).length = 3 ∧
      ∀ unit ∈ indentation lopsidedDeepest.path, unit.length = 4 := by
  have hlined : OneLined lopsided := by decide
  have hdeepest : lopsidedDeepest ∈ drawnNodes lopsided := by decide
  obtain ⟨hdraw, hcount, -, hlines, -, hunits, hlevel⟩ := walks_follow_recursion lopsided
  obtain ⟨hsplit, hlength⟩ := hlines hlined
  have hsize : lopsided.nodeCount = 6 := hcount
  have hdepth : lopsided.depth - 1 = 3 := Option.some.inj (hlevel.symm.trans (by decide))
  exact ⟨hlined, hdraw.trans (by decide +kernel), hsplit.trans (by decide +kernel),
    hlength.trans hsize, hsize, by omega, hdeepest, hunits _ hdeepest⟩

end Reckoner.Proofs
