import Reckoner.Json.Value
import Reckoner.Tree
/-!
Trees as JSON: directly as text with the members in the order of their declaration, and as JSON
values, whose members are ordered by key.
-/
namespace Reckoner.Tree

/-- A line for one member of a node at the given level. -/
def memberLine (level : Nat) (key value : String) : String :=
  Json.margin level ++ "\"" ++ key ++ "\": " ++ value

/-- The text of a node at the given level, from the lines of its members. -/
def nodeText (level : Nat) (lines : List String) : String :=
  "\x7b\n" ++ ",\n".intercalate lines ++ "\n" ++ Json.margin level ++ "\x7d"

/-- JSON text of a tree whose first line starts at the given level; missing children are left
out. -/
def writeJson (level : Nat) : Tree → String
  | leaf label => nodeText level [memberLine (level + 1) "label" (Json.quote label)]
  | left label child =>
    nodeText level [memberLine (level + 1) "label" (Json.quote label),
      memberLine (level + 1) "left" (child.writeJson (level + 1))]
  | right label child =>
    nodeText level [memberLine (level + 1) "label" (Json.quote label),
      memberLine (level + 1) "right" (child.writeJson (level + 1))]
  | both label l r =>
    nodeText level [memberLine (level + 1) "label" (Json.quote label),
      memberLine (level + 1) "left" (l.writeJson (level + 1)),
      memberLine (level + 1) "right" (r.writeJson (level + 1))]

/-- JSON text of a tree that stands alone. -/
def jsonText (t : Tree) : String :=
  t.writeJson 0

def toJson : Tree → Json
  | leaf label => .ofMembers [("label", .string label)]
  | left label child => .ofMembers [("label", .string label), ("left", child.toJson)]
  | right label child => .ofMembers [("label", .string label), ("right", child.toJson)]
  | both label l r =>
    .ofMembers [("label", .string label), ("left", l.toJson), ("right", r.toJson)]

end Reckoner.Tree
