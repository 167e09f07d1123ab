import Docroot.Timestamp
import Docroot.Text.Quoted
/-!
Cookies sent to a client.

A cookie is written as its name and value followed by the attributes that are set, always in the
same order. Two cookies are duplicates of each other if they are written alike.
-/
namespace Docroot

inductive SameSite where
  | strict
  | lax
  | none
  deriving DecidableEq, Repr

namespace SameSite

def text : SameSite → String
  | strict => "Strict"
  | lax => "Lax"
  | none => "None"

end SameSite

structure Cookie where
  name : String
  value : String
  expires : Option Timestamp := none
  maxAge : Option Int := none
  domain : Option String := none
  path : Option String := none
  secure : Bool := false
  httpOnly : Bool := false
  sameSite : Option SameSite := none
  deriving DecidableEq, Repr

namespace Cookie

/-- The value of a cookie that the client is to drop. -/
def deletedMarker : String := "deleted"

/-- The cookie that makes a client drop `name`. -/
def expired (name : String) : Cookie :=
  { name, value := deletedMarker, expires := some Timestamp.epoch }

/-- An attribute that has a value. -/
def valued (label : String) (value : Option String) : String :=
  match value with
  | some v => "; " ++ label ++ "=" ++ v
  | none => ""

/-- An attribute that is there or not. -/
def flag (label : String) (on : Bool) : String := if on then "; " ++ label else ""

/-- The cookie as a header carries it. -/
def text (c : Cookie) : String :=
  c.name ++ "=" ++ c.value ++ valued "Expires" (c.expires.map Timestamp.httpDate) ++
    valued "Max-Age" (c.maxAge.map Decimal.ofInt) ++ valued "Domain" c.domain ++
    valued "Path" c.path ++ flag "Secure" c.secure ++ flag "HttpOnly" c.httpOnly ++
    valued "SameSite" (c.sameSite.map SameSite.text)

def describe (c : Cookie) : String :=
  Quoted.record "ResponseCookie" [("name", Quoted.text c.name), ("value", Quoted.text c.value),
    ("expires", Quoted.option (c.expires.map Timestamp.describe)),
    ("max_age", Quoted.option (c.maxAge.map Decimal.ofInt)),
    ("domain", Quoted.option (c.domain.map Quoted.text)),
    ("path", Quoted.option (c.path.map Quoted.text)), ("secure", Quoted.bool c.secure),
    ("http_only", Quoted.bool c.httpOnly),
    ("same_site", Quoted.option (c.sameSite.map SameSite.text))]

end Cookie

end Docroot
