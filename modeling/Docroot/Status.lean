/-!
Status lines, and other fixed texts of responses.
-/
namespace Docroot

namespace Status

def ok : String := "200 OK"

def movedPermanently : String := "301 Moved Permanently"

def temporaryRedirect : String := "307 Temporary Redirect"

def notFound : String := "404 Not Found"

/-- Every status line that has a name, by number. -/
def all : List String := [
  "100 Continue", "101 Switching Protocols", "102 Processing", ok, "201 Created",
  "202 Accepted", "203 Non-Authoritative Information", "204 No Content", "205 Reset Content",
  "206 Partial Content", movedPermanently, temporaryRedirect, "400 Bad Request",
  "401 Unauthorized", notFound, "405 Method Not Allowed", "406 Not Acceptable",
  "408 Request Timeout", "413 Payload Too Large", "429 Too Many Requests",
  "500 Internal Server Error", "505 HTTP Version Not Supported"]

end Status

namespace ContentType

def html : String := "text/html; charset=utf-8"

def css : String := "text/css; charset=utf-8"

def javascript : String := "text/javascript; charset=utf-8"

def json : String := "application/json; charset=utf-8"

def text : String := "text/plain; charset=utf-8"

def octetStream : String := "application/octet-stream"

/-- The content types that have a name. -/
def all : List String := [html, css, javascript, json, text, octetStream]

end ContentType

/-- The protocol version of a header that names none. -/
def protocolVersion : String := "HTTP/1.1"

/-- The caching directive that asks for a check on every use. -/
def noCache : String := "no-cache"

/-- The origin that stands for every origin. -/
def anyOrigin : String := "*"

end Docroot
