import Docroot.MediaType
import Docroot.Server.Content
/-!
Headers, responses and snapshots as parts of a server.

Names that a header meets for the first time are registered. A path is served with its type and
length; one that is missing, or a folder, is answered with an empty body and the status line for
it. Snapshots get their identifiers here.
-/
namespace Docroot.Server

/-- A new registry of header names. -/
def addRegistry (s : Server) (debug : Bool) : Nat × Server :=
  let r := s.registries.size
  (r, { s with registries := s.registries.push (.create r debug) })

/-- The instance of a name in a registry, where it is registered if it is not known. -/
def nameFor (s : Server) (r : Nat) (name : String) : HeaderName × Server :=
  let reg := s.registry r
  let (n, reg') := reg.getOrCreate name
  let s := s.setRegistry r reg'
  (n, if reg.debug && (reg.get? name).isNone then s.report (.nameRegistered name) else s)

/-- Registers a name anew with the given mark. -/
def overrideName (s : Server) (r : Nat) (name : String) (replayable : Bool) :
    HeaderName × Server :=
  let (n, reg) := (s.registry r).override name replayable
  (n, s.setRegistry r reg)

/-- Stores a value under a name, which is registered if it is not known. -/
def setNamed (s : Server) (h : Header) (name value : String) : Header × Server :=
  let (n, s) := s.nameFor h.registry name
  (h.set n value, s)

/-- Adds a cookie to a header. -/
def setCookie (s : Server) (h : Header) (c : Cookie) : Header × Server :=
  (h.setCookie c,
    if (s.registry h.registry).debug then s.report (.cookieSet c.name) else s)

/-- Makes the client drop a cookie. -/
def removeCookie (s : Server) (h : Header) (name : String) : Header × Server :=
  s.setCookie h (Cookie.expired name)

/-- Serves a path under a header. -/
def respond [MediaTypes] (s : Server) (p : Nat) (h : Header) : Except FileError Response × Server :=
  let n := s.node p
  if !n.present || n.isFolder then (.ok (.missing h), s)
  else
    let (type, isText) := MediaType.contentType n.extension
    if isText then
      match s.readText p with
      | (.ok t, s) => (.ok (.ofContent h type true (Utf8.ofText t)), s)
      | (.error e, s) => (.error e, s)
    else
      match s.readBytes p with
      | (.ok b, s) => (.ok (.ofContent h type false b), s)
      | (.error e, s) => (.error e, s)

/-- A stream of a snapshot for one more reader. -/
def streamOf (s : Server) (snapshot : Snapshot) : KnownStream × Server :=
  (snapshot.stream, s.report (.streamed snapshot.id))

/-- A body as a response. A snapshot is read once more. -/
def deliver (s : Server) : Body → Response × Server
  | .fresh r => (r, s)
  | .replayed snapshot => (snapshot.replay, s.report (.streamed snapshot.id))

/-- Freezes a body under the next identifier. -/
def freeze (s : Server) (b : Body) : Except SnapshotError Snapshot × Server :=
  let id : Uuid := ⟨s.nextId⟩
  let (r, s) := ({ s with nextId := s.nextId + 1 } : Server).deliver b
  match Snapshot.freeze id r with
  | .ok snapshot =>
    (.ok snapshot, s.report (.frozen id snapshot.length snapshot.header.status))
  | .error e => (.error e, s)

end Docroot.Server
