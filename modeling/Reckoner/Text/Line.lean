/-!
Lines of a file. A line ends at a line feed, and a carriage return right before that line feed
belongs to the ending; what follows the last line feed is a line only if it is not empty. A file is
cut into lines as bytes, and every line is decoded on its own. What the lines of a text are is said
for decoded texts, too.
-/
namespace Reckoner.Text

/-- Drops a carriage return from a line that is held back to front. -/
def dropReturn : List Char → List Char
  | '\r' :: line => line
  | line => line

/-- Lines of a text whose first line starts with `line`, held back to front. -/
def linesFrom (line : List Char) : List Char → List String
  | [] => if line.isEmpty then [] else [String.ofList line.reverse]
  | c :: rest =>
    if c == '\n' then String.ofList (dropReturn line).reverse :: linesFrom [] rest
    else linesFrom (c :: line) rest

/-- Lines of a text. -/
def lines (s : String) : List String :=
  linesFrom [] s.toList

/-- The byte of a line feed. -/
def lineFeed : UInt8 := 10

/-- Cuts bytes behind every line feed. The first piece starts with `held`, back to front. -/
def pieces (held : List UInt8) : List UInt8 → List (List UInt8)
  | [] => if held.isEmpty then [] else [held.reverse]
  | b :: rest =>
    if b == lineFeed then (b :: held).reverse :: pieces [] rest else pieces (b :: held) rest

/-- Drops the ending of a line that is held back to front. -/
def dropEnding : List Char → List Char
  | '\n' :: line => dropReturn line
  | line => line

/-- The line that a piece holds, or nothing when the piece is not UTF-8. -/
def line? (piece : List UInt8) : Option String :=
  (String.fromUTF8? piece.toByteArray).map fun s =>
    String.ofList (dropEnding s.toList.reverse).reverse

/-- Lines of a file's bytes, or nothing when some line is not UTF-8. -/
def lines? (bytes : ByteArray) : Option (List String) :=
  (pieces [] bytes.data.toList).mapM line?

end Reckoner.Text
