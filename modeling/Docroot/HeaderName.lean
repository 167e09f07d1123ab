import Docroot.Table
import Docroot.Text.Case
import Docroot.Text.Quoted
/-!
Names of headers.

A name counts without regard to blank space at its ends and to the case of ASCII letters; what is
left is its key. A registry hands out one instance for each key, under the spelling in which the
name was registered, with a number and a mark that tells whether its values may be replayed from a
cached response. Every registry starts with the standard names, numbered in their order.
-/
namespace Docroot

/-- The names that every registry knows. -/
inductive StandardName where
  | accessControlAllowOrigin | acceptPatch | acceptRanges | age | allow | cacheControl
  | connection | contentEncoding | contentLanguage | contentTransferEncoding
  | contentDisposition | location | contentMd5 | contentRange | xPoweredBy | contentType
  | status | date | eTag | server | expires | lastModified | link | contentLength | pragma
  | wwwAuthenticate | proxyAuthenticate | publicKeyPins | refresh | setCookie | retryAfter
  | xContentTypeOptions | xFrameOptions | contentSecurityPolicy
  deriving DecidableEq, Repr

namespace StandardName

/-- The standard names in the order of their numbers. -/
def all : List StandardName := [
  accessControlAllowOrigin, acceptPatch, acceptRanges, age, allow, cacheControl,
  connection, contentEncoding, contentLanguage, contentTransferEncoding,
  contentDisposition, location, contentMd5, contentRange, xPoweredBy, contentType,
  status, date, eTag, server, expires, lastModified, link, contentLength, pragma,
  wwwAuthenticate, proxyAuthenticate, publicKeyPins, refresh, setCookie, retryAfter,
  xContentTypeOptions, xFrameOptions, contentSecurityPolicy]

/-- The name as a header shows it. -/
def text : StandardName → String
  | accessControlAllowOrigin => "Access-Control-Allow-Origin"
  | acceptPatch => "Accept-Patch"
  | acceptRanges => "Accept-Ranges"
  | age => "Age"
  | allow => "Allow"
  | cacheControl => "Cache-Control"
  | connection => "Connection"
  | contentEncoding => "Content-Encoding"
  | contentLanguage => "Content-Language"
  | contentTransferEncoding => "Content-Transfer-Encoding"
  | contentDisposition => "Content-Disposition"
  | location => "Location"
  | contentMd5 => "Content-MD5"
  | contentRange => "Content-Range"
  | xPoweredBy => "X-Powered-By"
  | contentType => "Content-Type"
  | status => "Status"
  | date => "Date"
  | eTag => "ETag"
  | server => "Server"
  | expires => "Expires"
  | lastModified => "Last-Modified"
  | link => "Link"
  | contentLength => "Content-Length"
  | pragma => "Pragma"
  | wwwAuthenticate => "WWW-Authenticate"
  | proxyAuthenticate => "Proxy-Authenticate"
  | publicKeyPins => "Public-Key-Pins"
  | refresh => "Refresh"
  | setCookie => "Set-Cookie"
  | retryAfter => "Retry-After"
  | xContentTypeOptions => "X-Content-Type-Options"
  | xFrameOptions => "X-Frame-Options"
  | contentSecurityPolicy => "Content-Security-Policy"

/-- The number of a standard name, which is its place among them. -/
def number : StandardName → Nat
  | accessControlAllowOrigin => 0 | acceptPatch => 1 | acceptRanges => 2 | age => 3
  | allow => 4 | cacheControl => 5 | connection => 6 | contentEncoding => 7
  | contentLanguage => 8 | contentTransferEncoding => 9 | contentDisposition => 10
  | location => 11 | contentMd5 => 12 | contentRange => 13 | xPoweredBy => 14
  | contentType => 15 | status => 16 | date => 17 | eTag => 18 | server => 19
  | expires => 20 | lastModified => 21 | link => 22 | contentLength => 23 | pragma => 24
  | wwwAuthenticate => 25 | proxyAuthenticate => 26 | publicKeyPins => 27 | refresh => 28
  | setCookie => 29 | retryAfter => 30 | xContentTypeOptions => 31 | xFrameOptions => 32
  | contentSecurityPolicy => 33

/-- Cookies, ages and dates belong to one delivery and are not replayed. -/
def replayable : StandardName → Bool
  | age | date | setCookie => false
  | _ => true

theorem getElem?_all (h : StandardName) : all[h.number]? = some h := by
  cases h <;> rfl

end StandardName

/-- What names are compared by. -/
def nameKey (name : String) : String := lowerText (trimText name)

/-- A name as one registry handed it out. Two handles are the same instance if their registry and
their serial agree, and equal if their keys do. Numbers are words of 32 bits. -/
structure HeaderName where
  registry : Nat
  serial : Nat
  number : UInt32
  text : String
  key : String
  replayable : Bool
  deriving DecidableEq, Repr, Inhabited

namespace HeaderName

/-- The instance of a standard name that a registry starts with. -/
def standard (registry : Nat) (h : StandardName) : HeaderName where
  registry
  serial := h.number
  number := .ofNat h.number
  text := h.text
  key := nameKey h.text
  replayable := h.replayable

/-- Equality of names, whatever registries they come from. -/
def agrees (a b : HeaderName) : Bool := a.key == b.key

/-- Identity of handles. -/
def sameInstance (a b : HeaderName) : Bool := a.registry == b.registry && a.serial == b.serial

def describe (n : HeaderName) : String := Quoted.wrap "HeaderOption" (Quoted.text n.text)

end HeaderName

/-- The names handed out by one registry, by key. -/
structure NameRegistry where
  id : Nat
  names : Table String HeaderName
  nextNumber : UInt32
  nextSerial : Nat
  debug : Bool
  deriving Inhabited

namespace NameRegistry

/-- A registry that knows the standard names. -/
def create (id : Nat) (debug : Bool) : NameRegistry where
  id
  names := StandardName.all.foldl
    (fun t h => t.insert (nameKey h.text) (HeaderName.standard id h)) Table.empty
  nextNumber := .ofNat StandardName.all.length
  nextSerial := StandardName.all.length
  debug

def size (r : NameRegistry) : Nat := r.names.size

/-- The instance of a standard name that the registry started with. -/
def standard (r : NameRegistry) (h : StandardName) : HeaderName := HeaderName.standard r.id h

def get? (r : NameRegistry) (name : String) : Option HeaderName := r.names.find? (nameKey name)

/-- Puts a new instance under its key. -/
def add (r : NameRegistry) (n : HeaderName) : NameRegistry :=
  { r with
    names := r.names.insert n.key n
    nextSerial := r.nextSerial + 1 }

/-- The instance for a name, which is registered as replayable if it is not known. -/
def getOrCreate (r : NameRegistry) (name : String) : HeaderName × NameRegistry :=
  match r.get? name with
  | some n => (n, r)
  | none =>
    let n : HeaderName := {
      registry := r.id, serial := r.nextSerial, number := r.nextNumber
      text := name, key := nameKey name, replayable := true }
    (n, { r.add n with nextNumber := r.nextNumber + 1 })

/-- Registers a name anew with the given mark. It keeps its number if it has one; the instances
handed out before stay as they are. -/
def override (r : NameRegistry) (name : String) (replayable : Bool) :
    HeaderName × NameRegistry :=
  let known := r.get? name
  let n : HeaderName := {
    registry := r.id, serial := r.nextSerial
    number := (known.map HeaderName.number).getD r.nextNumber
    text := name, key := nameKey name, replayable }
  (n, { r.add n with
    nextNumber := if known.isSome then r.nextNumber else r.nextNumber + 1 })

def describe (r : NameRegistry) : String :=
  Quoted.record "HeaderRegistry" [("len", toString r.size), ("debug", Quoted.bool r.debug)]

end NameRegistry

end Docroot
