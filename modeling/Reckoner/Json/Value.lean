import Reckoner.Text.Quoted
/-!
JSON values and their text, one member a line and two blanks for each level.
-/
namespace Reckoner

mutual

/-- A JSON value as far as outcomes need it. A number is held as its text. -/
inductive Json where
  | null
  | number (text : String)
  | string (text : String)
  | object (members : Json.Members)

/-- The members of an object, in the order in which they are written. -/
inductive Json.Members where
  | nil
  | cons (key : String) (value : Json) (rest : Json.Members)

end

namespace Json

/-- A character as it stands in a JSON string: all but quotes, backslashes and controls stand
for themselves. -/
def escaped (c : Char) : String :=
  if c == '"' then "\\\""
  else if c == '\\' then "\\\\"
  else if c == '\x08' then "\\b"
  else if c == '\x0c' then "\\f"
  else if c == '\n' then "\\n"
  else if c == '\r' then "\\r"
  else if c == '\t' then "\\t"
  else if c.toNat < 0x20 then
    "\\u00" ++ (if c.toNat < 0x10 then "0" else "1") ++ Text.hex (c.toNat % 16)
  else c.toString

def quote (s : String) : String :=
  "\"" ++ String.join (s.toList.map escaped) ++ "\""

/-- The blanks before a line at the given level. -/
def margin (level : Nat) : String :=
  String.ofList (List.replicate (2 * level) ' ')

mutual

/-- The pieces of a value's text, whose first line starts at the given level, before the pieces
that follow it. -/
def pieces (level : Nat) (rest : List String) : Json → List String
  | null => "null" :: rest
  | number text => text :: rest
  | string text => quote text :: rest
  | object .nil => "\x7b\x7d" :: rest
  | object (.cons key value members) =>
    "\x7b\n" :: memberPieces (level + 1) ("\n" :: margin level :: "\x7d" :: rest)
      (.cons key value members)

/-- The pieces of members, each on lines of its own at the given level. -/
def memberPieces (level : Nat) (rest : List String) : Members → List String
  | .nil => rest
  | .cons key value .nil => margin level :: quote key :: ": " :: pieces level rest value
  | .cons key value (.cons next value' members) =>
    margin level :: quote key :: ": " ::
      pieces level (",\n" :: memberPieces level rest (.cons next value' members)) value

end

/-- The text of a value. -/
def write (value : Json) : String :=
  String.join (value.pieces 0 [])

/-- Adds a member where its key belongs in alphabetical order, in place of one with that key. -/
def Members.insert (key : String) (value : Json) : Members → Members
  | .nil => .cons key value .nil
  | .cons first value' rest =>
    if key < first then .cons key value (.cons first value' rest)
    else if key = first then .cons key value rest
    else .cons first value' (rest.insert key value)

/-- The object with the given members, ordered by key. -/
def ofMembers (members : List (String × Json)) : Json :=
  object (members.foldl (fun all m => all.insert m.1 m.2) .nil)

end Json

end Reckoner
