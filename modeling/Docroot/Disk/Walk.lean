import Docroot.Disk
import Docroot.Failure
/-!
Where a path leads.

A path is a byte string. It starts at the root folder or at the current directory and is followed
name by name: `.` stays, `..` goes to the folder around, a link in the middle is followed, and
every name but the last has to lead to a folder. A separator at the end asks for a folder, just
as `.` there does. At most `linkMax` links are followed, a name has at most `nameMax` bytes and a
path less than `pathMax`. The current directory may have been removed: then only its own name and
`..` lead anywhere from it.
-/
namespace Docroot.Disk

open Utf8 (Bytes)

def slash : UInt8 := 47

def dot : Name := [46]

def dotDot : Name := [46, 46]

def nameMax : Nat := 255

def pathMax : Nat := 4096

def linkMax : Nat := 40

/-- The names in a path, without the empty ones that repeated separators make. -/
def namesOf (path : Bytes) : List Name := (path.splitOn slash).filter (· ≠ [])

def isAbsolute (path : Bytes) : Bool := path.head? == some slash

/-- Whether the path ends with a separator. -/
def endsOpen (path : Bytes) : Bool := path.getLast? == some slash

/-- The names to follow in order to reach an entry that has to be there. -/
def namesToEntry (path : Bytes) : List Name :=
  namesOf path ++ if endsOpen path then [dot] else []

/-- Follows names from a folder. The answer is the location that the last one leads to, which is
free if only that last name is missing. A link at the very end is followed if `through` holds. -/
def walk (d : Disk) (through : Bool) (links : Nat) (at' : Location) :
    List Name → Except IoError Location
  | [] => .ok at'
  | n :: rest =>
    if n = dot then walk d through links at' rest
    else if n = dotDot then walk d through links at'.tail rest
    else if nameMax < n.length then .error (.os Errno.nameTooLong)
    else match d.at? (n :: at') with
      | none => if rest = [] then .ok (n :: at') else .error (.os Errno.noEntry)
      | some .folder => walk d through links (n :: at') rest
      | some (.file _) => if rest = [] then .ok (n :: at') else .error (.os Errno.notDirectory)
      | some (.link target) =>
        if rest = [] ∧ !through then .ok (n :: at')
        else match links with
          | 0 => .error (.os Errno.tooManyLinks)
          | links + 1 =>
            walk d through links (if isAbsolute target then [] else at')
              (namesToEntry target ++ rest)
termination_by names => (links, names.length)

/-- Follows names from a folder that was removed, the current directory at first. Only `..` leads
out of it, and into another such folder if the one around it was removed as well. `none` stands for
any of them. -/
def drift (d : Disk) (through : Bool) (at' : Location) :
    List Name → Except IoError (Option Location)
  | [] => .ok none
  | n :: rest =>
    if n = dot then d.drift through at' rest
    else if n = dotDot then
      if d.at? at'.tail = some .folder then (d.walk through linkMax at'.tail rest).map some
      else d.drift through at'.tail rest
    else .error (.os Errno.noEntry)

/-- Follows names from the root folder or from the current directory. -/
def lead (d : Disk) (through fromRoot : Bool) (names : List Name) :
    Except IoError (Option Location) :=
  if fromRoot then (d.walk through linkMax [] names).map some
  else if d.adrift then d.drift through d.here names
  else (d.walk through linkMax d.here names).map some

/-- What is at a place that `lead` found. -/
def atPlace? (d : Disk) : Option Location → Option Entry
  | some at' => d.at? at'
  | none => some .folder

/-- Refuses the paths that the system does not look at. -/
def vet (path : Bytes) : Except IoError Unit :=
  if 0 ∈ path then .error .nulInPath
  else if pathMax ≤ path.length then .error (.os Errno.nameTooLong)
  else if path = [] then .error (.os Errno.noEntry)
  else .ok ()

/-- The entry that a path leads to through all links, and its place. -/
def find (d : Disk) (path : Bytes) : Except IoError (Option Location × Entry) := do
  vet path
  let found ← d.lead true (isAbsolute path) (namesToEntry path)
  match d.atPlace? found with
  | some entry => return (found, entry)
  | none => throw (.os Errno.noEntry)

/-- What is known about an entry without reading it. -/
structure Stat where
  isFolder : Bool
  size : Nat
  deriving DecidableEq, Repr

def stat (d : Disk) (path : Bytes) : Except IoError Stat :=
  match d.find path with
  | .error e => .error e
  | .ok (_, .file content) => .ok ⟨false, content.length⟩
  | .ok (place, .folder) => .ok ⟨true, d.folderSize place⟩
  | .ok (_, .link _) => .error (.os Errno.tooManyLinks)

/-- Whether a path leads to an entry. -/
def exists? (d : Disk) (path : Bytes) : Bool :=
  match d.stat path with
  | .ok _ => true
  | .error _ => false

/-- Whether a path leads to a folder. -/
def isFolder (d : Disk) (path : Bytes) : Bool :=
  match d.stat path with
  | .ok s => s.isFolder
  | .error _ => false

/-- The content of the file that a path leads to. -/
def read (d : Disk) (path : Bytes) : Except IoError Bytes :=
  match d.find path with
  | .error e => .error e
  | .ok (_, .file content) => .ok content
  | .ok (_, .folder) => .error (.os Errno.isDirectory)
  | .ok (_, .link _) => .error (.os Errno.tooManyLinks)

/-- The names in the folder that a path leads to. -/
def list (d : Disk) (path : Bytes) : Except IoError (List Name) :=
  match d.find path with
  | .error e => .error e
  | .ok (some at', .folder) => .ok (d.namesIn at')
  | .ok (none, .folder) => .ok []
  | .ok _ => .error (.os Errno.notDirectory)

/-- The path of a location, from the root folder. -/
def pathOf (at' : Location) : Bytes :=
  if at' = [] then [slash] else at'.reverse.flatMap (slash :: ·)

/-- The one path from the root folder, without links and dots, to where a path leads. Paths of any
length have one, but none starts at a current directory that was removed. -/
def canonical (d : Disk) (path : Bytes) : Except IoError Bytes := do
  if 0 ∈ path then throw .nulInPath
  if path = [] ∨ (d.adrift ∧ !isAbsolute path) then throw (.os Errno.noEntry)
  let found ← d.lead true (isAbsolute path) (namesToEntry path)
  match found, d.atPlace? found with
  | some at', some _ => return pathOf at'
  | _, _ => throw (.os Errno.noEntry)

/-- The path of the current directory, as long as it is there. -/
def currentPath (d : Disk) : Option Bytes := if d.adrift then none else some (pathOf d.here)

/-- The path of an entry of the folder at `path`. -/
def entryPath (path : Bytes) (n : Name) : Bytes :=
  if path = [] ∨ endsOpen path then path ++ n else path ++ slash :: n

end Docroot.Disk
