/-!
Path keys.

A key names a file or a folder below a root. It is a list of segments joined by `/`; the key of a
folder ends with `/`, except that the root's is empty. Any text has a key: either separator
divides it, empty segments and `.` count for nothing, and `..` takes back the segment before it
but never leaves the root.
-/
namespace Docroot.Key

abbrev Segment := List Char

/-- Both separators that a request may use. -/
def isSeparator (c : Char) : Bool := c == '/' || c == '\\'

/-- One more segment on the way down. The segments stand innermost first. -/
def push (stack : List Segment) (s : Segment) : List Segment :=
  if s = [] ∨ s = ['.'] then stack
  else if s = ['.', '.'] then stack.tail
  else s :: stack

/-- Where a text leads from the root, outermost segment first. -/
def segments (raw : List Char) : List Segment :=
  ((raw.splitOnP isSeparator).foldl push []).reverse

/-- The key with the given segments. -/
def render (segs : List Segment) (folder : Bool) : List Char :=
  ['/'].intercalate segs ++ if folder && !segs.isEmpty then ['/'] else []

/-- The key of a text. -/
def normalize (raw : String) (folder : Bool) : String :=
  String.ofList (render (segments raw.toList) folder)

/-- A text below a folder: separators in front of it do not lead back to the root. -/
def join (parent raw : String) : String :=
  parent ++ String.ofList (raw.toList.dropWhile isSeparator)

/-- Whether a text asks for a folder in so many words. -/
def asksForFolder (raw : String) : Bool := raw.toList.getLast?.any isSeparator

/-- What stands in front of the names of the entries of `key`. -/
def folderPrefix (key : String) : String :=
  if key.toList = [] ∨ key.toList.getLast? = some '/' then key else key ++ "/"

/-- The text after the last `/`, or all of it. -/
def afterLastSlash (cs : List Char) : List Char :=
  (cs.reverse.takeWhile (· ≠ '/')).reverse

/-- The last segment of a key. -/
def fileName (key : String) : List Char :=
  let cs := key.toList
  afterLastSlash (if cs.getLast? = some '/' then cs.dropLast else cs)

/-- A missing path whose last segment has a dot is taken for a file. -/
def looksLikeFile (key : String) : Bool := '.' ∈ fileName key

/-- The last segment up to its first dot. -/
def entityName (key : String) : String :=
  String.ofList ((fileName key).takeWhile (· ≠ '.'))

/-- What follows the last dot of the last segment, or nothing. -/
def extension (key : String) : String :=
  let name := fileName key
  String.ofList (if '.' ∈ name then (name.reverse.takeWhile (· ≠ '.')).reverse else [])

/-- Joins a key to the text of a root directory. -/
def below (root key : String) : String :=
  if key.toList.head? = some '/' then key
  else if root.toList = [] ∨ root.toList.getLast? = some '/' then root ++ key
  else root ++ "/" ++ key

end Docroot.Key
