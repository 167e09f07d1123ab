import Docroot.Config
import Docroot.ContentCache
import Docroot.Disk.Change
import Docroot.Key
import Docroot.ResponseCache
/-!
The state of a server, and what is noted in it.

Everything that can be referred to has a number and is never forgotten: file systems, the paths
they handed out, content caches, registries of header names and response caches. A file system
knows its paths by key; a path keeps the state in which it was resolved, until it is created, and
the listing that was made of it first.
-/
namespace Docroot

/-- A path as it was resolved. -/
structure PathNode where
  /-- The file system that handed the path out. -/
  system : Nat
  key : String
  isFolder : Bool
  /-- The location on disk, as text. -/
  diskPath : String
  /-- Whether the path was found on disk, or was created since. -/
  present : Bool
  /-- The paths in the folder, by key, once it was listed. -/
  listing : Option (List Nat)
  deriving DecidableEq, Repr, Inhabited

namespace PathNode

/-- The last segment of the key up to its first dot. -/
def entity (n : PathNode) : String := Key.entityName n.key

/-- What follows the last dot of a file's name. A folder has no extension. -/
def extension (n : PathNode) : String := if n.isFolder then "" else Key.extension n.key

/-- Equality of paths, whatever file systems they come from. -/
def agrees (a b : PathNode) : Bool := a.key == b.key

def describe (n : PathNode) : String :=
  Quoted.record "VirtualPath" [("path", Quoted.text n.key),
    ("is_folder", Quoted.bool n.isFolder), ("exists", Quoted.bool n.present)]

end PathNode

/-- A root directory and the paths resolved below it. -/
structure FileSystem where
  root : String
  /-- The content cache of its paths. -/
  cache : Nat
  config : Config
  registry : Table String Nat
  /-- How many handles there are. Without one, folders are no longer listed. -/
  owners : Nat
  deriving Inhabited

structure Server where
  disk : Disk
  caches : Array ContentCache := #[]
  systems : Array FileSystem := #[]
  nodes : Array PathNode := #[]
  registries : Array NameRegistry := #[]
  responses : Array ResponseCache := #[]
  /-- The next snapshot's identifier. -/
  nextId : Nat := 0
  /-- The events so far, the latest first. -/
  log : List Event := []
  deriving Inhabited

namespace Server

def node (s : Server) (p : Nat) : PathNode := s.nodes.getD p default

def system (s : Server) (v : Nat) : FileSystem := s.systems.getD v default

def cache (s : Server) (c : Nat) : ContentCache := s.caches.getD c default

def registry (s : Server) (r : Nat) : NameRegistry := s.registries.getD r default

def response (s : Server) (c : Nat) : ResponseCache := s.responses.getD c default

def report (s : Server) (e : Event) : Server := { s with log := e :: s.log }

def setNode (s : Server) (p : Nat) (n : PathNode) : Server :=
  { s with nodes := s.nodes.setIfInBounds p n }

def setSystem (s : Server) (v : Nat) (f : FileSystem) : Server :=
  { s with systems := s.systems.setIfInBounds v f }

def setCache (s : Server) (i : Nat) (c : ContentCache) : Server :=
  { s with caches := s.caches.setIfInBounds i c }

def setRegistry (s : Server) (i : Nat) (r : NameRegistry) : Server :=
  { s with registries := s.registries.setIfInBounds i r }

def setResponse (s : Server) (i : Nat) (c : ResponseCache) : Server :=
  { s with responses := s.responses.setIfInBounds i c }

def addCache (s : Server) (c : ContentCache) : Nat × Server :=
  (s.caches.size, { s with caches := s.caches.push c })

def addResponseCache (s : Server) : Nat × Server :=
  (s.responses.size, { s with responses := s.responses.push .empty })

/-- A root directory as an absolute path: without links and dots where it exists, and as it was
given where it does not. -/
def absoluteRoot (d : Disk) (root : String) : String :=
  match d.canonical (Utf8.ofText root) with
  | .ok path => String.ofList (Utf8.repair path)
  | .error _ =>
    match d.currentPath with
    | some here => Key.below (String.ofList (Utf8.repair here)) root
    | none => root

/-- A new file system over a root directory. It uses the given content cache, or one of its own;
with caching switched off it has a cache that holds nothing. -/
def mount (s : Server) (root : String) (cache : Option Nat) (config : Config) : Nat × Server :=
  let (c, s) :=
    if config.cacheEnabled then
      match cache with
      | some c => (c, s)
      | none => s.addCache .memory
    else s.addCache .disabled
  let f : FileSystem :=
    { root := absoluteRoot s.disk root, cache := c, config, registry := .empty, owners := 1 }
  (s.systems.size, { s with systems := s.systems.push f })

/-- One more handle of a file system. -/
def retain (s : Server) (v : Nat) : Server :=
  let f := s.system v
  s.setSystem v { f with owners := f.owners + 1 }

/-- One handle less. -/
def release (s : Server) (v : Nat) : Server :=
  let f := s.system v
  s.setSystem v { f with owners := f.owners - 1 }

/-- The settings that a path was resolved under. -/
def configOf (s : Server) (n : PathNode) : Config := (s.system n.system).config

/-- Gives the caller the answer of a verdict, and notes the failure that it hides. -/
def settle {α : Type} (s : Server) (v : Verdict α) : Except FileError α × Server :=
  (v.answer, match v.hidden? with
    | some e => s.report (.degraded e)
    | none => s)

end Server

end Docroot
