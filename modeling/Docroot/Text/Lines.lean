import Docroot.Text.Utf8
/-!
Text files, line by line.

A line ends at LF, and one CR before that LF belongs to the line end. What stands behind the last
LF is a line of its own unless it is empty, and keeps its CR. A byte order mark in front of the
first line is no text. A document is its lines, each followed by LF.
-/
namespace Docroot.Lines

open Utf8 (Bytes)

/-- The line feed, as a byte. -/
def lf : UInt8 := 10

/-- The carriage return, as a byte. -/
def cr : UInt8 := 13

/-- Written after every line of a document. -/
def separator : String := "\n"

/-- A line without the carriage return that belongs to its line end. -/
def stripReturn (line : Bytes) : Bytes :=
  if line.getLast? = some cr then line.dropLast else line

/-- The lines of a byte string, without their ends. -/
def split (content : Bytes) : List Bytes :=
  let pieces := content.splitOn lf
  let rest := pieces.getLastD []
  pieces.dropLast.map stripReturn ++ if rest.isEmpty then [] else [rest]

/-- The byte order mark. -/
def mark : Char := '\uFEFF'

def stripMark : List Char → List Char
  | c :: rest => if c = mark then rest else c :: rest
  | [] => []

/-- The document that the decoded lines make. -/
def join : List (List Char) → List Char
  | [] => []
  | first :: rest => (stripMark first :: rest).flatMap (· ++ separator.toList)

/-- The document in a byte string whose lines are all UTF-8. -/
def read? (content : Bytes) : Option String :=
  ((split content).mapM Utf8.decode?).map fun lines => String.ofList (join lines)

end Docroot.Lines
