import Docroot.Table
import Docroot.Text.Utf8
/-!
A disk: files, folders and links, each at its location.

Names are byte strings without `/` and NUL. The root folder is always there. A location is the
names that lead to it, innermost first, so that the folder around `n :: at` is `at`.

Everything on the disk may be read and changed: there are no permissions, a disk is never full, what
is read is read to its end, and there are no devices, pipes or sockets.
-/
namespace Docroot

open Utf8 (Bytes)

abbrev Name := Bytes

abbrev Location := List Name

inductive Entry where
  | file (content : Bytes)
  | folder
  | link (target : Bytes)
  deriving DecidableEq, Inhabited

namespace Entry

def isFolder : Entry → Bool
  | folder => true
  | _ => false

end Entry

/-- The entries by location, and the current directory. -/
structure Disk where
  entries : Table Location Entry
  /-- The location of the current directory. -/
  here : Location
  /-- Whether the current directory was removed. It is a folder still, but it holds nothing, and
  what is made at its location later is another folder. -/
  adrift : Bool
  /-- The size that the system reports for the folder at a location, or for the removed current
  directory. It does not depend on what is in the folder. -/
  folderSize : Option Location → Nat
  deriving Inhabited

namespace Disk

/-- What is at a location. -/
def at? (d : Disk) (at' : Location) : Option Entry :=
  if at' = [] then some .folder else d.entries.find? at'

/-- The names in a folder. -/
def namesIn (d : Disk) (folder : Location) : List Name :=
  d.entries.keys.filterMap fun
    | n :: around => if around = folder then some n else none
    | [] => none

end Disk

end Docroot
