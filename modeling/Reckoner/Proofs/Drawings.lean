import Mathlib.Tactic
import Reckoner.Tree.Drawing

/-!
# Drawings of trees

The drawing of a tree, made with a list of what is still to draw, is the one made by recursion: the
line of the root, then the lines of the right subtree and those of the left one, each behind its
branch. The first character behind the margin tells which of the two a line belongs to, whatever
the labels are, so a tree can be read off its drawing as long as no label ends a line.
-/

namespace Reckoner.Proofs
open Reckoner.Tree

/-- The lines of a subtree, behind what stands before its own line and before those below. -/
def placed (before below : String) : List String → List String
  | [] => []
  | first :: rest => (before ++ first) :: rest.map (below ++ ·)

@[simp]
lemma placed_cons (before below first : String) (rest : List String) :
    placed before below (first :: rest) = (before ++ first) :: rest.map (below ++ ·) := rfl

/-- The lines of a subtree behind its branch. -/
def branched (b : Branch) : List String → List String :=
  placed b.connector b.continuation

/-- The lines of a drawing, by recursion and without their line feeds. -/
def rows : Tree → List String
  | leaf label => [label]
  | left label child => label :: branched leftBranch (rows child)
  | right label child => label :: branched rightBranch (rows child)
  | both label l r => label :: (branched rightBranch (rows r) ++ branched leftBranch (rows l))

lemma rows_ne_nil (t : Tree) : rows t ≠ [] := by
  cases t <;> exact List.cons_ne_nil _ _

/-! ### The recursion -/

lemma map_placed (margin before below : String) (lines : List String) :
    (placed before below lines).map (margin ++ ·) =
      placed (margin ++ before) (margin ++ below) lines := by
  cases lines with
  | nil => rfl
  | cons first rest =>
    simp only [placed, List.map_cons, List.map_map, String.append_assoc, Function.comp_def]

/-- A leaf has no children to draw, so setting it apart changes nothing. -/
lemma linesFrom_step (p : Pending) (rest : List Pending) :
    linesFrom (p :: rest) = p.line :: linesFrom (p.children ++ rest) := by
  obtain ⟨t, before, below⟩ := p
  rw [linesFrom]
  cases t with
  | leaf => exact if_pos rfl
  | left | right | both => exact if_neg Bool.false_ne_true

lemma linesFrom_cons (t : Tree) (before below : String) (pending : List Pending) :
    linesFrom (⟨t, before, below⟩ :: pending) =
      (placed before below (rows t)).map (· ++ "\n") ++ linesFrom pending := by
  induction t generalizing before below pending with
  | leaf label =>
    rw [linesFrom_step]
    rfl
  | left label child ih | right label child ih =>
    rw [linesFrom_step]
    simp only [Pending.children, Pending.child, List.cons_append, List.nil_append]
    rw [ih]
    simp only [Pending.line, Tree.label, rows, branched, placed_cons, map_placed, List.map_cons,
      List.cons_append]
  | both label l r ihl ihr =>
    rw [linesFrom_step]
    simp only [Pending.children, Pending.child, List.cons_append, List.nil_append]
    rw [ihr, ihl]
    simp only [Pending.line, Tree.label, rows, branched, placed_cons, map_placed, List.map_cons,
      List.map_append, List.cons_append, List.append_assoc]

theorem draw_eq (t : Tree) : t.draw = String.join ((rows t).map (· ++ "\n")) := by
  have hplaced : placed "" "" (rows t) = rows t := by
    obtain ⟨first, rest, h⟩ := List.exists_cons_of_ne_nil (rows_ne_nil t)
    simp [h, placed]
  rw [draw, linesFrom_cons, linesFrom, List.append_nil, hplaced]

lemma draw_toList (t : Tree) :
    t.draw.toList = ((rows t).map String.toList).flatMap (· ++ ['\n']) := by
  rw [draw_eq, String.toList_join, List.flatMap_map, List.flatMap_map]
  simp only [String.toList_append]
  rfl

/-! ### From the lines back to the tree -/

def leftChild? : Tree → Option Tree
  | left _ child | both _ child _ => some child
  | _ => none

def rightChild? : Tree → Option Tree
  | right _ child | both _ _ child => some child
  | _ => none

/-- The lines of a child that may be missing. -/
def childRows (b : Branch) (child : Option Tree) : List String :=
  (child.map fun t => branched b (rows t)).getD []

lemma rows_eq (t : Tree) :
    rows t = t.label ::
      (childRows rightBranch (rightChild? t) ++ childRows leftBranch (leftChild? t)) := by
  cases t <;> simp [rows, label, childRows, leftChild?, rightChild?]

lemma of_children (t : Tree) : Tree.of t.label (leftChild? t) (rightChild? t) = t := by
  cases t <;> rfl

lemma branched_inj {b : Branch} {lines lines' : List String}
    (h : branched b lines = branched b lines') : lines = lines' := by
  have hbelow : Function.Injective fun line => b.continuation ++ line :=
    fun _ _ => (String.append_right_inj _).mp
  match lines, lines' with
  | [], [] => rfl
  | first :: rest, first' :: rest' =>
    obtain ⟨hfirst, hrest⟩ := List.cons.inj h
    rw [(String.append_right_inj _).mp hfirst, hbelow.list_map hrest]

lemma childRows_inj {b : Branch} {child child' : Option Tree}
    (ih : ∀ t, child = some t → ∀ u, rows t = rows u → t = u)
    (h : childRows b child = childRows b child') : child = child' := by
  have hsome : ∀ t, childRows b (some t) ≠ [] := by
    intro t
    obtain ⟨first, rest, hrows⟩ := List.exists_cons_of_ne_nil (rows_ne_nil t)
    simp [childRows, branched, placed, hrows]
  match child, child' with
  | none, none => rfl
  | some t, none => exact (hsome t h).elim
  | none, some u => exact (hsome u h.symm).elim
  | some t, some u => rw [ih t rfl u (branched_inj h)]

/-- Whether a line belongs to the right subtree. -/
def startsRight (line : String) : Bool :=
  line.toList.head? == some '├' || line.toList.head? == some '│'

lemma startsRight_childRows {b : Branch} {side : Bool} (hconnector : b.connector.toList ≠ [])
    (hcontinuation : b.continuation.toList ≠ []) (h : startsRight b.connector = side)
    (h' : startsRight b.continuation = side) (child : Option Tree) :
    ∀ line ∈ childRows b child, startsRight line = side := by
  intro line hline
  match child with
  | some t =>
    obtain ⟨first, rest, hrows⟩ := List.exists_cons_of_ne_nil (rows_ne_nil t)
    simp only [childRows, Option.map_some, Option.getD_some, branched, hrows, placed, List.mem_cons,
      List.mem_map] at hline
    rcases hline with rfl | ⟨below, _, rfl⟩
    · rw [← h]
      simp only [startsRight, String.toList_append, List.head?_append_of_ne_nil _ hconnector]
    · rw [← h']
      simp only [startsRight, String.toList_append, List.head?_append_of_ne_nil _ hcontinuation]

lemma startsRight_right (child : Option Tree) :
    ∀ line ∈ childRows rightBranch child, startsRight line = true :=
  startsRight_childRows (by decide) (by decide) (by decide) (by decide) child

lemma startsRight_left (child : Option Tree) :
    ∀ line ∈ childRows leftBranch child, startsRight line = false :=
  startsRight_childRows (by decide) (by decide) (by decide) (by decide) child

/-- The lines of the right subtree are those in front that start as such. -/
lemma children_inj {t u : Tree}
    (h : childRows rightBranch (rightChild? t) ++ childRows leftBranch (leftChild? t) =
      childRows rightBranch (rightChild? u) ++ childRows leftBranch (leftChild? u)) :
    childRows rightBranch (rightChild? t) = childRows rightBranch (rightChild? u) ∧
      childRows leftBranch (leftChild? t) = childRows leftBranch (leftChild? u) := by
  have htake : ∀ s : Tree, (childRows rightBranch (rightChild? s) ++
      childRows leftBranch (leftChild? s)).filter startsRight =
        childRows rightBranch (rightChild? s) := by
    intro s
    have hleft : ∀ line ∈ childRows leftBranch (leftChild? s), ¬startsRight line = true := by
      intro line hline
      rw [startsRight_left _ line hline]
      exact Bool.false_ne_true
    rw [List.filter_append, List.filter_eq_self.mpr (startsRight_right _),
      List.filter_eq_nil_iff.mpr hleft, List.append_nil]
  have hright : childRows rightBranch (rightChild? t) = childRows rightBranch (rightChild? u) := by
    rw [← htake t, ← htake u, h]
  refine ⟨hright, ?_⟩
  rw [hright] at h
  exact List.append_cancel_left h

lemma rows_inj_of_children {t u : Tree}
    (ihright : ∀ s, rightChild? t = some s → ∀ s', rows s = rows s' → s = s')
    (ihleft : ∀ s, leftChild? t = some s → ∀ s', rows s = rows s' → s = s')
    (h : rows t = rows u) : t = u := by
  rw [rows_eq t, rows_eq u] at h
  obtain ⟨hlabel, hchildren⟩ := List.cons.inj h
  obtain ⟨hright, hleft⟩ := children_inj hchildren
  rw [← of_children t, ← of_children u, hlabel, childRows_inj ihright hright,
    childRows_inj ihleft hleft]

/-- A tree can be read off its lines, whatever its labels are. -/
theorem rows_injective : Function.Injective rows := by
  intro t
  -- a missing child makes no lines, so only the children that are there need the induction
  induction t with
  | leaf label => exact fun u => rows_inj_of_children nofun nofun
  | left label child ih =>
    exact fun u => rows_inj_of_children nofun (by rintro s ⟨⟩; exact fun _ => @ih _)
  | right label child ih =>
    exact fun u => rows_inj_of_children (by rintro s ⟨⟩; exact fun _ => @ih _) nofun
  | both label l r ihl ihr =>
    exact fun u => rows_inj_of_children (by rintro s ⟨⟩; exact fun _ => @ihr _)
      (by rintro s ⟨⟩; exact fun _ => @ihl _)

/-! ### From the text back to the lines -/

/-- The labels of a tree, the root first. -/
def labels : Tree → List String
  | leaf label => [label]
  | left label child | right label child => label :: labels child
  | both label l r => label :: (labels l ++ labels r)

/-- The text does not end a line. -/
def OneLine (s : String) : Prop :=
  '\n' ∉ s.toList

instance (s : String) : Decidable (OneLine s) :=
  inferInstanceAs (Decidable ('\n' ∉ s.toList))

lemma OneLine.append {s s' : String} (h : OneLine s) (h' : OneLine s') : OneLine (s ++ s') := by
  rw [OneLine, String.toList_append, List.mem_append]
  exact not_or.mpr ⟨h, h'⟩

/-- No label ends a line. -/
def OneLined (t : Tree) : Prop :=
  ∀ label ∈ labels t, OneLine label

instance (t : Tree) : Decidable (OneLined t) :=
  inferInstanceAs (Decidable (∀ label ∈ labels t, OneLine label))

lemma OneLine.branched {b : Branch} (hconnector : OneLine b.connector)
    (hcontinuation : OneLine b.continuation) {lines : List String}
    (h : ∀ line ∈ lines, OneLine line) : ∀ line ∈ branched b lines, OneLine line := by
  intro line hline
  match lines with
  | first :: rest =>
    obtain ⟨hfirst, hrest⟩ := List.forall_mem_cons.mp h
    rcases List.mem_cons.mp hline with rfl | hmem
    · exact hconnector.append hfirst
    · obtain ⟨below, hbelow, rfl⟩ := List.mem_map.mp hmem
      exact hcontinuation.append (hrest below hbelow)

lemma OneLined.rows {t : Tree} (h : OneLined t) : ∀ line ∈ rows t, OneLine line := by
  have hright : ∀ {lines : List String}, (∀ line ∈ lines, OneLine line) →
      ∀ line ∈ branched rightBranch lines, OneLine line := .branched (by decide) (by decide)
  have hleft : ∀ {lines : List String}, (∀ line ∈ lines, OneLine line) →
      ∀ line ∈ branched leftBranch lines, OneLine line := .branched (by decide) (by decide)
  induction t with
  | leaf label => exact h
  | left label child ih =>
    obtain ⟨hlabel, hchild⟩ := List.forall_mem_cons.mp h
    exact List.forall_mem_cons.mpr ⟨hlabel, hleft (ih hchild)⟩
  | right label child ih =>
    obtain ⟨hlabel, hchild⟩ := List.forall_mem_cons.mp h
    exact List.forall_mem_cons.mpr ⟨hlabel, hright (ih hchild)⟩
  | both label l r ihl ihr =>
    obtain ⟨hlabel, hchildren⟩ := List.forall_mem_cons.mp h
    obtain ⟨hl, hr⟩ := List.forall_mem_append.mp hchildren
    refine List.forall_mem_cons.mpr ⟨hlabel, List.forall_mem_append.mpr ⟨?_, ?_⟩⟩
    · exact hright (ihr hr)
    · exact hleft (ihl hl)

lemma append_newline_inj {a a' b b' : List Char} (ha : '\n' ∉ a) (ha' : '\n' ∉ a')
    (h : a ++ '\n' :: b = a' ++ '\n' :: b') : a = a' ∧ b = b' := by
  have hsplit := congrArg (List.splitOn '\n') h
  rw [List.splitOn_append_cons_self_of_not_mem ha,
    List.splitOn_append_cons_self_of_not_mem ha'] at hsplit
  obtain rfl := (List.cons.inj hsplit).1
  exact ⟨rfl, (List.cons.inj (List.append_cancel_left h)).2⟩

lemma splitOn_ended {lines : List (List Char)} (h : ∀ line ∈ lines, '\n' ∉ line) :
    (lines.flatMap (· ++ ['\n'])).splitOn '\n' = lines ++ [[]] := by
  induction lines with
  | nil => rfl
  | cons line rest ih =>
    obtain ⟨hline, hrest⟩ := List.forall_mem_cons.mp h
    rw [List.flatMap_cons, List.append_assoc, List.singleton_append,
      List.splitOn_append_cons_self_of_not_mem hline, ih hrest, List.cons_append]

/-- The line feeds of a drawing end its lines, and nothing follows the last. -/
lemma split_draw {t : Tree} (h : OneLined t) :
    (t.draw.split '\n').toList.map String.Slice.copy = rows t ++ [""] := by
  have hrows : ∀ line ∈ (rows t).map String.toList, '\n' ∉ line :=
    List.forall_mem_map.mpr h.rows
  have hback : String.ofList ∘ String.toList = id := funext fun _ => String.ofList_toList
  rw [String.toList_split_char, draw_toList, splitOn_ended hrows, List.map_append, List.map_map,
    hback, List.map_id]
  rfl

/-- A tree without line feeds in its labels can be read off its drawing. -/
theorem draw_inj {t u : Tree} (ht : OneLined t) (hu : OneLined u) (h : t.draw = u.draw) :
    t = u := by
  have hrows : rows t ++ [""] = rows u ++ [""] := by
    rw [← split_draw ht, ← split_draw hu, h]
  exact rows_injective (List.append_cancel_right hrows)

end Reckoner.Proofs
