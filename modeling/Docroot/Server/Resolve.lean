import Docroot.ExtensionSet
import Docroot.Server
/-!
From requests to paths.

A file system hands out one path for each key, until that path is invalidated. A request that ends
with a separator asks for a folder. Any other is for what is registered or on disk under its key,
and a missing path is a file if its last segment has a dot. Folders are listed once; the paths in
them are registered like any other.
-/
namespace Docroot.Server

/-- The path registered under a key. -/
def lookup (s : Server) (v : Nat) (key : String) : Option Nat := (s.system v).registry.find? key

/-- The path as it is resolved now. -/
def makeNode (s : Server) (v : Nat) (key : String) (isFolder : Bool) : PathNode :=
  let diskPath := Key.below (s.system v).root key
  { system := v, key, isFolder, diskPath
    present := s.disk.exists? (Utf8.ofText diskPath), listing := none }

/-- The path registered under a key, which is resolved and registered if there is none. -/
def intern (s : Server) (v : Nat) (key : String) (isFolder : Bool) : Nat × Server :=
  match s.lookup v key with
  | some p => (p, s)
  | none =>
    let n := s.makeNode v key isFolder
    let f := s.system v
    let p := s.nodes.size
    (p, ({ s with nodes := s.nodes.push n }.setSystem v
      { f with registry := f.registry.insert key p }).report (.registered key isFolder n.present))

/-- The root folder. -/
def root (s : Server) (v : Nat) : Nat × Server := s.intern v "" true

/-- Whether a key that is not registered stands for a folder. -/
def classify (s : Server) (v : Nat) (key : String) : Bool :=
  match s.disk.stat (Utf8.ofText (Key.below (s.system v).root key)) with
  | .ok st => st.isFolder
  | .error _ => !Key.looksLikeFile key

/-- The path that a text leads to from a path. -/
def resolve (s : Server) (v parent : Nat) (raw : String) : Nat × Server :=
  let n := s.node parent
  let joined := Key.join (Key.folderPrefix n.key) raw
  let asFolder := Key.normalize joined true
  if Key.asksForFolder raw || (raw.isEmpty && n.isFolder) then s.intern v asFolder true
  else
    let asFile := Key.normalize joined false
    if asFile.isEmpty then s.root v
    else match s.lookup v asFile with
      | some p => (p, s)
      | none =>
        match s.lookup v asFolder with
        | some p => (p, s)
        | none =>
          if s.classify v asFile then s.intern v asFolder true else s.intern v asFile false

/-- The path that a text leads to from the root. -/
def get (s : Server) (v : Nat) (raw : String) : Nat × Server :=
  let (r, s) := s.root v
  s.resolve v r raw

/-- Puts a path into a listing, which is in the order of the keys. -/
def enlist (key : String) (p : Nat) : List (String × Nat) → List (String × Nat)
  | [] => [(key, p)]
  | (k, q) :: rest =>
    if key < k then (key, p) :: (k, q) :: rest
    else if key = k then (key, p) :: rest
    else (k, q) :: enlist key p rest

/-- Registers one entry of the folder `n` and puts it into the listing. -/
def enlistEntry (n : PathNode) (listing : List (String × Nat) × Server) (name : Name) :
    List (String × Nat) × Server :=
  let (l, s) := listing
  let isFolder := s.disk.isFolder (Disk.entryPath (Utf8.ofText n.diskPath) name)
  let raw := Key.join n.key (String.ofList (Utf8.repair name))
  let (p, s) := s.intern n.system (Key.normalize raw isFolder) isFolder
  (enlist (s.node p).key p l, s)

/-- Lists the folder `n` on disk. -/
def makeListing (s : Server) (n : PathNode) : List Nat × Server :=
  if !n.isFolder || !n.present || (s.system n.system).owners == 0 then ([], s)
  else match s.disk.list (Utf8.ofText n.diskPath) with
    | .error e => ([], s.report (.listingFailed n.key e))
    | .ok names =>
      let (l, s) := names.foldl (enlistEntry n) ([], s)
      (l.map Prod.snd, s.report (.listed n.key l.length))

/-- The listing of a path, which is made on the first call and kept. -/
def listing (s : Server) (p : Nat) : List Nat × Server :=
  match (s.node p).listing with
  | some l => (l, s)
  | none =>
    let (l, s) := s.makeListing (s.node p)
    (l, s.setNode p { s.node p with listing := some l })

/-- The paths in a folder, with or without the folders among them. -/
def children (s : Server) (p : Nat) (folders : Bool) : List Nat × Server :=
  let (l, s) := s.listing p
  (l.filter (fun c => folders || !(s.node c).isFolder), s)

/-- A question about a path, which may leave its mark on the server. -/
abbrev Test := Nat → Server → Bool × Server

/-- Asks the questions one after the other, up to the first that is denied. -/
def passes : List Test → Test
  | [], _, s => (true, s)
  | t :: rest, p, s =>
    match t p s with
    | (true, s) => passes rest p s
    | (false, s) => (false, s)

/-- The paths that pass every test. -/
def sift (tests : List Test) : List Nat → Server → List Nat × Server
  | [], s => ([], s)
  | p :: rest, s =>
    let (ok, s) := passes tests p s
    let (kept, s) := sift tests rest s
    (if ok then p :: kept else kept, s)

/-- The paths in a folder that pass every test. -/
def childrenPassing (s : Server) (p : Nat) (tests : List Test) : List Nat × Server :=
  let (l, s) := s.listing p
  sift tests l s

/-- The first path in a folder with the given name and extension, up to the case of letters. -/
def findChild (s : Server) (children : List Nat) (name extension : String) : Option Nat :=
  children.find? fun c =>
    let n := s.node c
    sameName n.entity name && sameName n.extension extension

/-- The path for a name without extension: what the folder has for the first extension that
matches, or else the name with the preferred extension. -/
def resolveWith (s : Server) (v parent : Nat) (name : String) (exts : ExtensionSet) :
    Nat × Server :=
  let (l, s) := s.children parent true
  match exts.extensions.findSome? (s.findChild l name) with
  | some c => (c, s)
  | none =>
    match exts.primary with
    | some e => s.resolve v parent (name ++ "." ++ e)
    | none => s.resolve v parent name

/-- Forgets a path, so that its key is resolved anew. Handles of it stay as they are. The answer
tells whether the path was the one registered under its key. -/
def invalidate (s : Server) (v p : Nat) : Bool × Server :=
  let key := (s.node p).key
  if s.lookup v key = some p then
    let f := s.system v
    (true, s.setSystem v { f with registry := f.registry.erase key })
  else (false, s)

/-- How many paths are registered. -/
def registered (s : Server) (v : Nat) : Nat := (s.system v).registry.size

end Docroot.Server
