import Reckoner.Text.Blank
/-!
Paths of files as texts, and the names of output files derived from them. Repeated separators and
components that stay in place are kept in the text of a path but do not count in comparisons.
-/
namespace Reckoner

/-- A path that is a Unicode text. Other paths, which a system may have, are left out. -/
structure Path where
  text : String
deriving DecidableEq, Repr

namespace Path

/-- The pieces between separators; a text without any is one piece. -/
def pieces : List Char → List (List Char)
  | [] => [[]]
  | c :: rest =>
    if c == '/' then [] :: pieces rest
    else
      match pieces rest with
      | [] => [[c]]
      | first :: others => (c :: first) :: others

def joinPieces (parts : List (List Char)) : List Char :=
  List.intercalate ['/'] parts

/-- Whether a piece names nothing: it is empty or stays in place. -/
def isIdle (piece : List Char) : Bool :=
  piece == [] || piece == ['.']

/-- Splits off what stands before the pieces: the root, or the dot of a path that starts in
place. -/
def splitHead : List Char → List Char × List Char
  | '/' :: body => (['/'], body)
  | ['.'] => (['.'], [])
  | '.' :: '/' :: body => (['.'], '/' :: body)
  | body => ([], body)

def dropIdle (parts : List (List Char)) : List (List Char) :=
  (parts.reverse.dropWhile isIdle).reverse

/-- One step of a path. -/
inductive Component where
  | root
  | current
  | parent
  | name (name : List Char)
deriving DecidableEq, Repr

def Component.ofPiece (piece : List Char) : Component :=
  if piece = ['.', '.'] then parent else name piece

def Component.ofHead : List Char → List Component
  | ['/'] => [root]
  | ['.'] => [current]
  | _ => []

/-- The steps of a path. Two paths are the same when their steps are. -/
def components (p : Path) : List Component :=
  let (head, body) := splitHead p.text.toList
  Component.ofHead head ++ ((pieces body).filter (!isIdle ·)).map Component.ofPiece

def same (p q : Path) : Bool :=
  p.components = q.components

/-- The last step, if it is a name, with the text of the directory that it is in. -/
def splitName? (p : Path) : Option (List Char × List Char) :=
  let (head, body) := splitHead p.text.toList
  match (dropIdle (pieces body)).reverse with
  | [] => none
  | last :: before =>
    if last = ['.', '.'] then none
    else some (head ++ joinPieces (dropIdle before.reverse), last)

/-- A name without its extension. A dot at the very start begins no extension. -/
def stem (name : List Char) : List Char :=
  match name.reverse.dropWhile (· != '.') with
  | _ :: before => if before.isEmpty then name else before.reverse
  | [] => name

/-- Puts a name below a directory, with a separator unless one is there. -/
def below (directory name : List Char) : List Char :=
  match directory.getLast? with
  | none => name
  | some '/' => directory ++ name
  | some _ => directory ++ '/' :: name

/-- The output file of line `index`: the name loses its extension and gains the index. A path that
ends in no name is the directory of its outputs. -/
def output (p : Path) (index : Nat) : Path :=
  let suffix := '_' :: (toString index).toList
  match p.splitName? with
  | some (directory, name) => ⟨String.ofList (below directory (stem name ++ suffix))⟩
  | none => ⟨String.ofList (below p.text.toList suffix)⟩

end Path

end Reckoner
