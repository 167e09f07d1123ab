import Docroot.Cookie
import Docroot.HeaderName
import Docroot.Status
/-!
The header of one response: a status line, a protocol version and values in the order in which
they were stored.

A value is stored under a name. Names agree by key, so that a write under one spelling replaces
the values under every other. The status line and the value of `Status` are written together.
-/
namespace Docroot

structure Header where
  status : String
  format : String
  entries : List (HeaderName × String)
  /-- The registry that names are looked up in. -/
  registry : Nat
  deriving DecidableEq, Repr, Inhabited

namespace Header

/-- A header without values. -/
def new (status : String) (registry : Nat) : Header :=
  { status, format := protocolVersion, entries := [], registry }

def ok (registry : Nat) : Header := new Status.ok registry

def withFormat (h : Header) (format : String) : Header := { h with format }

/-- The instance of a standard name that the header's registry started with. -/
def standard (h : Header) (n : StandardName) : HeaderName := HeaderName.standard h.registry n

/-- Drops every value of a name. -/
def remove (h : Header) (n : HeaderName) : Header :=
  { h with entries := h.entries.filter (fun e => !e.1.agrees n) }

/-- How many values `remove` drops. -/
def count (h : Header) (n : HeaderName) : Nat := h.entries.countP (fun e => e.1.agrees n)

/-- Stores one more value of a name. -/
def append (h : Header) (n : HeaderName) (value : String) : Header :=
  { h with entries := h.entries ++ [(n, value)] }

/-- Stores a value in place of all others of its name. -/
def set (h : Header) (n : HeaderName) (value : String) : Header := (h.remove n).append n value

/-- Stores a value beside the others of its name, or in their place. -/
def setWith (h : Header) (n : HeaderName) (value : String) (allowDuplicates : Bool) : Header :=
  if allowDuplicates then h.append n value else h.set n value

/-- Every value of a name, oldest first. -/
def values (h : Header) (n : HeaderName) : List String :=
  (h.entries.filter (fun e => e.1.agrees n)).map Prod.snd

/-- The oldest value of a name. -/
def get? (h : Header) (n : HeaderName) : Option String :=
  (h.entries.find? (fun e => e.1.agrees n)).map Prod.snd

def has (h : Header) (n : HeaderName) : Bool := h.entries.any (fun e => e.1.agrees n)

/-- Drops all values and leaves the status line. -/
def clear (h : Header) : Header := { h with entries := [] }

/-- Writes the status line and the value of `Status`. -/
def setStatus (h : Header) (status : String) : Header :=
  { h with status }.set (h.standard .status) status

/-- Sends the client to `url`. -/
def redirect (h : Header) (url status : String) : Header :=
  (h.set (h.standard .location) url).setStatus status

def redirectTemporary (h : Header) (url : String) : Header :=
  h.redirect url Status.temporaryRedirect

/-- Adds a cookie behind the others, and drops an older one that is written alike. -/
def setCookie (h : Header) (c : Cookie) : Header :=
  let n := h.standard .setCookie
  { h with entries := h.entries.filter (fun e => !(e.1.agrees n && e.2 == c.text)) }.append n c.text

/-- Makes the client drop a cookie. -/
def removeCookie (h : Header) (name : String) : Header := h.setCookie (Cookie.expired name)

/-- Stores the date on which the response is made, as the clock gave it. -/
def setDate (h : Header) (date : String) : Header := h.set (h.standard .date) date

/-- The values that may be replayed from a cached response. -/
def replayable (h : Header) : List (HeaderName × String) :=
  h.entries.filter (fun e => e.1.replayable)

/-- The values that belong to one delivery. -/
def volatile (h : Header) : List (HeaderName × String) :=
  h.entries.filter (fun e => !e.1.replayable)

/-- The header under which the response may be replayed. -/
def reusable (h : Header) : Header :=
  h.replayable.foldl (fun r e => r.append e.1 e.2) ((new h.status h.registry).withFormat h.format)

def describe (h : Header) : String :=
  Quoted.record "Header" [("status", Quoted.text h.status), ("format", Quoted.text h.format),
    ("entries", Quoted.list (h.entries.map fun e =>
      "(" ++ e.1.describe ++ ", " ++ Quoted.text e.2 ++ ")"))]

end Header

end Docroot
