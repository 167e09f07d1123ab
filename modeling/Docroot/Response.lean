import Docroot.Header
import Docroot.Stream
/-!
Responses: a header and a body that is delivered once.
-/
namespace Docroot

open Utf8 (Bytes)

structure Response where
  header : Header
  stream : BodyStream
  isText : Bool
  deriving DecidableEq, Repr, Inhabited

namespace Response

/-- A response with a text as its body. -/
def text (header : Header) (content : String) : Response :=
  ⟨header, .known (.new (Utf8.ofText content)), true⟩

/-- A response with a byte string as its body. -/
def bytes (header : Header) (content : Bytes) : Response :=
  ⟨header, .known (.new content), false⟩

/-- A response whose length shows only when it is delivered. -/
def streaming (header : Header) (content : Bytes) (isText : Bool) : Response :=
  ⟨header, .unknown content, isText⟩

/-- The answer where there is no file to serve. -/
def missing (header : Header) : Response := bytes (header.setStatus Status.notFound) []

/-- A whole file as a response: the last two entries of the header tell its type and length. -/
def ofContent (header : Header) (contentType : String) (isText : Bool) (body : Bytes) :
    Response :=
  let header := (header.set (header.standard .contentType) contentType).set
    (header.standard .contentLength) (Decimal.ofNat body.length)
  ⟨header, .known (.new body), isText⟩

def describe (r : Response) : String :=
  Quoted.record "Response" [("header", r.header.describe), ("stream", r.stream.describe),
    ("is_text", Quoted.bool r.isText)]

end Response

end Docroot
