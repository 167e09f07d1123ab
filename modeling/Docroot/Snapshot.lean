import Docroot.Failure
import Docroot.Response
import Docroot.Uuid
/-!
Frozen responses.

A snapshot holds the whole body of a response of known length, wherever its stream stood, and the
header as it was. Every reader gets a stream of its own.
-/
namespace Docroot

open Utf8 (Bytes)

structure Snapshot where
  id : Uuid
  header : Header
  isText : Bool
  body : Bytes
  deriving DecidableEq, Repr, Inhabited

/-- Why a response could not be frozen. -/
inductive SnapshotError where
  /-- The body does not tell its length. The snapshot would have had this identifier. -/
  | unknownLength (id : Uuid)
  deriving DecidableEq, Repr

namespace SnapshotError

def message : SnapshotError → String
  | unknownLength id => "response " ++ id.text ++ " does not have a known length response stream"

end SnapshotError

/-- Why a response could not be served from a cache. -/
inductive ServeError where
  | file (error : FileError)
  | snapshot (error : SnapshotError)
  deriving DecidableEq, Repr

namespace ServeError

/-- The text of the error inside. -/
def message : ServeError → String
  | file e => e.message
  | snapshot e => e.message

/-- The source of the error inside. -/
def source? : ServeError → Option IoError
  | file e => e.source?
  | snapshot _ => none

end ServeError

namespace Snapshot

/-- Freezes a response under a fresh identifier. -/
def freeze (id : Uuid) (r : Response) : Except SnapshotError Snapshot :=
  match r.stream.known? with
  | some s => .ok ⟨id, r.header, r.isText, s.data⟩
  | none => .error (.unknownLength id)

def length (s : Snapshot) : Nat := s.body.length

def isEmpty (s : Snapshot) : Bool := s.body.isEmpty

/-- A stream for one more reader. -/
def stream (s : Snapshot) : KnownStream := .new s.body

/-- The snapshot as a response, which can be delivered or frozen again. -/
def replay (s : Snapshot) : Response := ⟨s.header, .known s.stream, s.isText⟩

def describe (s : Snapshot) : String :=
  Quoted.record "CachedResponse" [("id", s.id.text), ("status", Quoted.text s.header.status),
    ("is_text", Quoted.bool s.isText), ("len", toString s.length)]

end Snapshot

end Docroot
