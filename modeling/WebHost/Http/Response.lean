import WebHost.Http.Request
import WebHost.Http.Status
import WebHost.Json.Compact

/-! Responses and their wire form. A response with a body carries its computed length. -/
namespace WebHost.Http

structure Response where
  status : Status := .ok
  headers : Headers := []
  body : Option Bytes := none
  deriving DecidableEq, Repr, Inhabited

namespace Response

def contentType : Text := "Content-Type".toList

def setHeader (r : Response) (name value : Text) : Response :=
  { r with headers := r.headers.set name value }

def typed (status : Status) (type : Text) (body : Bytes) : Response :=
  { status, headers := [⟨contentType, type⟩], body := some body }

def text (status : Status) (body : Text) : Response :=
  typed status "text/plain".toList (Utf8.encode body)

def html (status : Status) (body : Bytes) : Response := typed status "text/html".toList body

def json (status : Status) (body : Bytes) : Response := typed status "application/json".toList body

/-- A JSON object that says what is wrong. -/
def problem (status : Status) (message : Text) : Response :=
  json status (Utf8.encode (Json.printObject [("error".toList, .text message)]))

def header? (r : Response) (name : Text) : Option Text := r.headers.get? name

/-- The headers as sent. The computed length stands last and takes the place of any other. -/
def sentHeaders (r : Response) : Headers :=
  match r.body with
  | none => r.headers
  | some body => r.headers.without contentLength ++ [⟨contentLength, Text.decimal body.length⟩]

def head (r : Response) : Text :=
  "HTTP/1.1 ".toList ++ r.status.text ++ "\r\n".toList ++ r.sentHeaders.print ++ "\r\n".toList

def toBytes (r : Response) : Bytes := Utf8.encode r.head ++ r.body.getD []

end Response
end WebHost.Http
