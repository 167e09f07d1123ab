import Docroot.Server
import Docroot.Text.Lines
/-!
The content of paths.

A path that was missing when it was resolved has no content, whatever is on disk by now. Text
comes from the content cache where it is held; what is read from disk goes into the cache, but
never the fallback for a failed read.
-/
namespace Docroot.Server

open Utf8 (Bytes)

/-- The failure to read a file whose text is not UTF-8. -/
def invalidText : IoError := .told .invalidData "stream did not contain valid UTF-8"

/-- The text of a file on disk. -/
def textOnDisk (d : Disk) (path : Bytes) : Except IoError String :=
  match d.read path with
  | .error e => .error e
  | .ok content =>
    match Lines.read? content with
    | some t => .ok t
    | none => .error invalidText

/-- The number of bytes in a file. -/
def length (s : Server) (p : Nat) : Except FileError (Option Nat) × Server :=
  let n := s.node p
  if !n.present then (.ok none, s)
  else
    let size := (s.disk.stat (Utf8.ofText n.diskPath)).map fun st => some st.size
    s.settle ((s.configOf n).ioPolicy.judge n.diskPath size none)

/-- The bytes of a file. -/
def readBytes (s : Server) (p : Nat) : Except FileError Bytes × Server :=
  let n := s.node p
  let policy := (s.configOf n).ioPolicy
  if !n.present then (.ok [], s)
  else if n.isFolder then s.settle (policy.recover (.isDirectory n.diskPath) [])
  else s.settle (policy.judge n.diskPath (s.disk.read (Utf8.ofText n.diskPath)) [])

/-- Asks the content cache of a path for its text. -/
def askCache (s : Server) (n : PathNode) : Option String × Server :=
  let c := (s.system n.system).cache
  let (found, cache) := (s.cache c).read n.key
  (found, s.setCache c cache)

/-- Puts the text of a path into its content cache. -/
def fillCache (s : Server) (n : PathNode) (text : String) : Server :=
  let c := (s.system n.system).cache
  s.setCache c ((s.cache c).write n.key text)

/-- The text of a file. -/
def readText (s : Server) (p : Nat) : Except FileError String × Server :=
  let n := s.node p
  let policy := (s.configOf n).ioPolicy
  let (found, s) := s.askCache n
  match found with
  | some t => (.ok t, s.report (.contentHit n.key))
  | none =>
    let s := s.report (.contentMiss n.key)
    if !n.present then (.ok "", s)
    else if n.isFolder then s.settle (policy.recover (.isDirectory n.diskPath) "")
    else match textOnDisk s.disk (Utf8.ofText n.diskPath) with
      | .ok t => (.ok t, s.fillCache n t)
      | .error e => s.settle (policy.judge n.diskPath (.error e) "")

/-- Whether the content cache holds the text of a path. -/
def isCached (s : Server) (p : Nat) : Bool × Server :=
  let (found, s) := s.askCache (s.node p)
  (found.isSome, s)

/-- Makes the file or the folder of a path on disk, with the folders around it. The answer tells
whether this call made it. -/
def create (s : Server) (p : Nat) : Except FileError Bool × Server :=
  let n := s.node p
  if n.present then (.ok false, s)
  else
    let path := Utf8.ofText n.diskPath
    let (made, disk) :=
      if n.isFolder then s.disk.makeFolders path else s.disk.makeFileAndFolders path
    let (answer, s) := ({ s with disk } : Server).settle
      ((s.configOf n).ioPolicy.judge n.diskPath (made.map fun _ => true) false)
    match answer with
    | .ok true => (.ok true, s.setNode p { n with present := true })
    | other => (other, s)

end Docroot.Server
