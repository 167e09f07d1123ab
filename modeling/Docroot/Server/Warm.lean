import Docroot.MediaType
import Docroot.Server.Content
import Docroot.Server.Resolve
/-!
Filling a content cache ahead of requests.

The folders below a path are listed one after the other, the latest found first, and every text
file in them is read once. Since a folder may turn up again below itself, the walk has a bound on
the number of folders and gives no answer beyond it.
-/
namespace Docroot.Server

/-- The files below the folders in `pending`, behind those in `files`. -/
def collect : Nat → Server → List Nat → List Nat → Option (List Nat × Server)
  | _, s, [], files => some (files, s)
  | 0, _, _ :: _, _ => none
  | bound + 1, s, folder :: pending, files =>
    let (children, s) := s.children folder true
    let folders := children.filter fun c => (s.node c).isFolder
    let others := children.filter fun c => !(s.node c).isFolder
    collect bound s (folders.reverse ++ pending) (files ++ others)

variable [MediaTypes]

/-- Reads a file if it is text. The answer tells whether its text is in the cache now. -/
def loadFile (s : Server) (p : Nat) : Bool × Server :=
  if (MediaType.contentType (s.node p).extension).2 then
    match s.readText p with
    | (.ok _, s) => s.isCached p
    | (.error _, s) => (false, s)
  else (false, s)

/-- Reads the text files among `files` and counts those that are in the cache then. -/
def load (s : Server) : List Nat → Nat × Server
  | [] => (0, s)
  | p :: rest =>
    let (loaded, s) := s.loadFile p
    let (n, s) := load s rest
    (n + (if loaded then 1 else 0), s)

/-- Reads every text file below a path into the content cache. The answer is how many of them the
cache holds then. -/
def warm (bound : Nat) (s : Server) (dir : Nat) : Option (Nat × Server) :=
  match collect bound s [dir] [] with
  | none => none
  | some (files, s) =>
    let (loaded, s) := s.load files
    some (loaded, s.report (.warmed (s.node dir).key files.length loaded))

end Docroot.Server
