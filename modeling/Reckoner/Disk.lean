import Reckoner.Fault
/-!
A disk as a value: files and directories by their place below the root, without links. Paths are
followed step by step, so each directory on the way has to be there, whatever comes after it.
-/
namespace Reckoner

/-- The names from the root to an entry. -/
abbrev Location := List (List Char)

inductive Entry where
  | file (content : ByteArray)
  | directory

instance : DecidableEq Entry
  | .file a, .file b =>
    match decEq a.data b.data with
    | isTrue h => isTrue (congrArg Entry.file (ByteArray.ext h))
    | isFalse h => isFalse fun he => h (congrArg ByteArray.data (Entry.file.inj he))
  | .directory, .directory => isTrue rfl
  | .file _, .directory => isFalse nofun
  | .directory, .file _ => isFalse nofun

/-- A disk without links: an entry is found at one location only, and a change there is seen nowhere
else. -/
structure Disk where
  entries : List (Location × Entry)
  /-- The directory in which relative paths start. -/
  home : Location

namespace Disk

/-- What a path leads to: a directory for certain, or an entry that may not exist. -/
inductive Target where
  | directory (location : Location)
  | entry (location : Location) (slash : Bool)

def empty (home : Location) : Disk :=
  ⟨[(home, .directory)], home⟩

def entry? (disk : Disk) (location : Location) : Option Entry :=
  if location = [] then some .directory else disk.entries.lookup location

/-- Puts an entry in its place, over whatever is there. -/
def putEntry (location : Location) (entry : Entry) :
    List (Location × Entry) → List (Location × Entry)
  | [] => [(location, entry)]
  | first :: rest =>
    if first.1 = location then (location, entry) :: rest
    else first :: putEntry location entry rest

def put (disk : Disk) (location : Location) (entry : Entry) : Disk :=
  { disk with entries := putEntry location entry disk.entries }

/-- Goes from a directory into the one that a piece of a path names. -/
def enter (disk : Disk) (location : Location) (piece : List Char) : Except FileFault Location :=
  if Path.isIdle piece then .ok location
  else if piece = ['.', '.'] then .ok location.dropLast
  else
    match disk.entry? (location ++ [piece]) with
    | some .directory => .ok (location ++ [piece])
    | some (.file _) => .error .notDirectory
    | none => .error .notFound

def start (disk : Disk) (path : Path) : Location :=
  match path.text.toList with
  | '/' :: _ => []
  | _ => disk.home

/-- Follows a path up to its last piece. -/
def locate (disk : Disk) (path : Path) : Except FileFault Target :=
  let parts := Path.pieces path.text.toList
  let slash := parts.getLast? = some []
  match (parts.filter (· ≠ [])).reverse with
  | [] => if path.text.isEmpty then .error .notFound else .ok (.directory [])
  | last :: before => do
    let parent ← before.reverse.foldlM disk.enter (disk.start path)
    if Path.isIdle last ∨ last = ['.', '.'] then
      return .directory (← disk.enter parent last)
    else
      return .entry (parent ++ [last]) slash

/-- The content of a file. A directory can be opened, but has no content. -/
def read (disk : Disk) (path : Path) : Except FileFault ByteArray := do
  match ← disk.locate path with
  | .directory _ => throw .isDirectory
  | .entry location slash =>
    match disk.entry? location with
    | none => throw .notFound
    | some .directory => throw .isDirectory
    | some (.file content) => if slash then throw .notDirectory else return content

/-- Replaces the content of a file, or makes the file. -/
def write (disk : Disk) (path : Path) (content : ByteArray) : Except FileFault Disk := do
  match ← disk.locate path with
  | .directory _ => throw .isDirectory
  | .entry location slash =>
    if slash then throw .isDirectory
    else
      match disk.entry? location with
      | some .directory => throw .isDirectory
      | _ => return disk.put location (.file content)

end Disk

end Reckoner
