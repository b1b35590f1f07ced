import Reckoner.Json.Token
import Reckoner.Tree
/-!
Trees read from JSON. A node is an object with a label and optional children, or an array of these
three in order. The reader takes one token at a time and keeps the open nodes on a stack; the first
fault that it meets is the one that is reported.
-/
namespace Reckoner.Json

/-- The members that a node has, and all others. -/
inductive Field where
  | label
  | left
  | right
  | other
deriving DecidableEq, Repr

def Field.ofKey (key : String) : Field :=
  if key = "label" then label
  else if key = "left" then left
  else if key = "right" then right
  else other

/-- What has been read of an open node. A child that is present may still be `null`. -/
structure Fields where
  label : Option String := none
  left : Option (Option Tree) := none
  right : Option (Option Tree) := none

def Fields.has (f : Fields) : Field → Bool
  | .label => f.label.isSome
  | .left => f.left.isSome
  | .right => f.right.isSome
  | .other => false

/-- The node that the fields make up, which must have a label. -/
def Fields.tree (f : Fields) : Except Fault Tree :=
  match f.label with
  | some label => .ok (Tree.of label f.left.join f.right.join)
  | none => .error .data

/-- An open node, with the field that is being read. -/
structure Frame where
  bracket : Bracket
  fields : Fields := {}
  field : Field := .label

def Frame.setChild (f : Frame) (child : Option Tree) : Frame :=
  match f.field with
  | .left => { f with fields := { f.fields with left := some child } }
  | .right => { f with fields := { f.fields with right := some child } }
  | _ => f

/-- What comes next inside a value that is skipped over. -/
inductive Skip where
  | value
  | opened
  | key
  | colon
  | after

/-- What comes next. -/
inductive Want where
  | root
  | firstKey
  | key
  | colon
  | firstElement
  | value
  | after
  | skip (brackets : List Bracket) (skip : Skip)
  | nothing (read : Tree)

structure Reader where
  /-- Open nodes, the innermost first. -/
  stack : List Frame := []
  want : Want := .root

namespace Reader

/-- Nodes may be nested this deep. -/
def depthLimit : Nat := 127

/-- Opens a node. -/
def openNode (stack : List Frame) (bracket : Bracket) : Except Fault Reader :=
  if depthLimit ≤ stack.length then .error .syntactic
  else
    match bracket with
    | .brace => .ok ⟨{ bracket } :: stack, .firstKey⟩
    | .square => .ok ⟨{ bracket } :: stack, .firstElement⟩

/-- Hands a child to the node that it belongs to. -/
def giveChild (child : Option Tree) : List Frame → Reader
  | [] => ⟨[], .root⟩
  | frame :: outer => ⟨frame.setChild child :: outer, .after⟩

/-- Closes a node and hands it on. -/
def close (frame : Frame) (outer : List Frame) : Except Fault Reader := do
  let tree ← frame.fields.tree
  match outer with
  | [] => return ⟨[], .nothing tree⟩
  | _ :: _ => return giveChild (some tree) outer

/-- Refuses a token that is of the wrong form, for the first reason that it gives. -/
def refuse : Token → Except Fault Reader
  | .word _ (.error fault) | .number fault | .text (.error fault) | .wrong fault => .error fault
  | .word _ (.ok _) | .text (.ok _) | .opening _ => .error .data
  | .closing _ | .colon | .comma => .error .syntactic

/-- Takes a node, or `null` where a child may be missing. -/
def takeTree (stack : List Frame) (optional : Bool) : Token → Except Fault Reader
  | .opening bracket => openNode stack bracket
  | .word true (.ok _) => if optional then .ok (giveChild none stack) else .error .data
  | t => refuse t

/-- Takes a label. Any opening bracket is refused for what it is. -/
def takeLabel (frame : Frame) (outer : List Frame) : Token → Except Fault Reader
  | .text (.ok label) =>
    .ok ⟨{ frame with fields := { frame.fields with label := some label } } :: outer, .after⟩
  | t => refuse t

/-- Takes a key. A field that was read before is refused before its value is seen. -/
def takeKey (frame : Frame) (outer : List Frame) : Token → Except Fault Reader
  | .text (.ok key) =>
    let field := Field.ofKey key
    if frame.fields.has field then .error .data
    else .ok ⟨{ frame with field } :: outer, .colon⟩
  | .text (.error fault) => .error fault
  | _ => .error .syntactic

/-- What comes after a skipped value. -/
def skipped (stack : List Frame) : List Bracket → Reader
  | [] => ⟨stack, .after⟩
  | brackets => ⟨stack, .skip brackets .after⟩

/-- Takes a value of any form. -/
def skipValue (stack : List Frame) (brackets : List Bracket) : Token → Except Fault Reader
  | .opening bracket => .ok ⟨stack, .skip (bracket :: brackets) .opened⟩
  | .word _ (.ok _) | .number _ | .text _ => .ok (skipped stack brackets)
  | .word _ (.error fault) | .wrong fault => .error fault
  | .closing _ | .colon | .comma => .error .syntactic

def skipKey (stack : List Frame) (brackets : List Bracket) : Token → Except Fault Reader
  | .text _ => .ok ⟨stack, .skip brackets .colon⟩
  | _ => .error .syntactic

/-- Takes a token inside a value that is skipped over, of which `brackets` are open. -/
def skip (stack : List Frame) (brackets : List Bracket) (what : Skip) (t : Token) :
    Except Fault Reader :=
  match what, brackets, t with
  | .value, _, t => skipValue stack brackets t
  | .opened, bracket :: outer, .closing found =>
    if found = bracket then .ok (skipped stack outer) else .error .syntactic
  | .opened, .square :: _, t => skipValue stack brackets t
  | .opened, .brace :: _, t => skipKey stack brackets t
  | .key, _, t => skipKey stack brackets t
  | .colon, _, .colon => .ok ⟨stack, .skip brackets .value⟩
  | .after, .square :: _, .comma => .ok ⟨stack, .skip brackets .value⟩
  | .after, .brace :: _, .comma => .ok ⟨stack, .skip brackets .key⟩
  | .after, bracket :: outer, .closing found =>
    if found = bracket then .ok (skipped stack outer) else .error .syntactic
  | _, _, .wrong fault => .error fault
  | _, _, _ => .error .syntactic

/-- Takes the value of the field that is being read. -/
def takeValue (frame : Frame) (outer : List Frame) (t : Token) : Except Fault Reader :=
  match frame.field with
  | .label => takeLabel frame outer t
  | .left | .right => takeTree (frame :: outer) true t
  | .other => skipValue (frame :: outer) [] t

/-- Takes what follows a value. The elements of an array come in the order of the fields. -/
def takeAfter (frame : Frame) (outer : List Frame) : Token → Except Fault Reader
  | .closing found => if found = frame.bracket then close frame outer else .error .syntactic
  | .comma =>
    match frame.bracket, frame.field with
    | .brace, _ => .ok ⟨frame :: outer, .key⟩
    | .square, .label => .ok ⟨{ frame with field := .left } :: outer, .value⟩
    | .square, .left => .ok ⟨{ frame with field := .right } :: outer, .value⟩
    | .square, _ => .error .syntactic
  | .wrong fault => .error fault
  | _ => .error .syntactic

/-- Takes one token. -/
def token (r : Reader) (t : Token) : Except Fault Reader :=
  match r.want, r.stack with
  | .nothing _, _ => .error .syntactic
  | .root, stack => takeTree stack false t
  | .firstKey, frame :: outer =>
    match t with
    | .closing .brace => close frame outer
    | t => takeKey frame outer t
  | .key, frame :: outer => takeKey frame outer t
  | .colon, frame :: outer =>
    match t with
    | .colon => .ok ⟨frame :: outer, .value⟩
    | _ => .error .syntactic
  | .firstElement, frame :: outer =>
    match t with
    | .closing .square => .error .data
    | t => takeValue frame outer t
  | .value, frame :: outer => takeValue frame outer t
  | .after, frame :: outer => takeAfter frame outer t
  | .skip brackets what, stack => skip stack brackets what t
  | _, [] => .error .syntactic

/-- The tree, if one has been read to its end. -/
def finish (r : Reader) : Except Fault Tree :=
  match r.want with
  | .nothing tree => .ok tree
  | _ => .error .ended

end Reader

/-- The tree that a JSON text describes. -/
def readTree (s : String) : Except Fault Tree := do
  let reader ← (tokens s.toList).foldlM Reader.token {}
  reader.finish

end Reckoner.Json
