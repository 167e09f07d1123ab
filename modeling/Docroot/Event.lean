import Docroot.Snapshot
/-!
What a server reports while it works.

Every event has a level, a message and fields in a fixed order.
-/
namespace Docroot

inductive Level where
  | trace
  | debug
  | warn
  deriving DecidableEq, Repr

inductive Event where
  | contentHit (path : String)
  | contentMiss (path : String)
  | degraded (error : FileError)
  | listingFailed (path : String) (error : IoError)
  | listed (path : String) (children : Nat)
  | registered (path : String) (isFolder present : Bool)
  | warmed (root : String) (files loaded : Nat)
  | nameRegistered (name : String)
  | cookieSet (name : String)
  | frozen (id : Uuid) (length : Nat) (status : String)
  | streamed (id : Uuid)
  | responseHit (key : String)
  | buildEvicted (key : String) (id : Uuid)
  | responseStored (key : String) (id : Uuid)
  deriving DecidableEq, Repr

namespace Level

def text : Level → String
  | trace => "TRACE"
  | debug => "DEBUG"
  | warn => "WARN"

end Level

namespace Event

def level : Event → Level
  | contentHit _ | contentMiss _ | streamed _ | responseHit _ => .trace
  | degraded _ | listingFailed _ _ => .warn
  | _ => .debug

def message : Event → String
  | contentHit _ => "content cache hit"
  | contentMiss _ => "content cache miss"
  | degraded _ => "degrading failed file access"
  | listingFailed _ _ => "failed to list folder"
  | listed _ _ => "listed folder"
  | registered _ _ _ => "registered path"
  | warmed _ _ _ => "warmed content cache"
  | nameRegistered _ => "registering unknown header"
  | cookieSet _ => "setting cookie"
  | frozen _ _ _ => "response snapshot created"
  | streamed _ => "fresh snapshot stream"
  | responseHit _ => "response cache hit"
  | buildEvicted _ _ => "slot evicted during build, not cached"
  | responseStored _ _ => "response cached"

def fields : Event → List (String × String)
  | contentHit path | contentMiss path => [("path", path)]
  | degraded e => [("path", e.path), ("error", e.message)]
  | listingFailed path e => [("path", path), ("error", e.message)]
  | listed path n => [("path", path), ("children", toString n)]
  | registered path isFolder present =>
    [("path", path), ("is_folder", Quoted.bool isFolder), ("exists", Quoted.bool present)]
  | warmed root files loaded =>
    [("root", root), ("files", toString files), ("loaded", toString loaded)]
  | nameRegistered name => [("header", name)]
  | cookieSet name => [("cookie", name)]
  | frozen id length status =>
    [("id", id.text), ("len", toString length), ("status", status)]
  | streamed id => [("id", id.text)]
  | responseHit key => [("key", key)]
  | buildEvicted key id | responseStored key id => [("key", key), ("id", id.text)]

/-- The event on one line: its level, its message and its fields between braces. -/
def line (e : Event) : String :=
  e.level.text ++ " " ++ e.message ++ " \x7b" ++
    " ".intercalate (e.fields.map fun f => f.1 ++ "=" ++ f.2) ++ "\x7d"

end Event

end Docroot
