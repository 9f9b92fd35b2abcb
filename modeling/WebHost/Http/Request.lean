import WebHost.Http.Form
import WebHost.Http.Header
import WebHost.Text.Blank
import WebHost.Text.Decimal

/-! Requests and their wire form. The head ends at the first empty line; the body is what follows,
cut to the declared length if there is one. -/
namespace WebHost.Http

structure Request where
  method : Text
  path : Text
  version : Text
  headers : Headers
  body : Bytes
  deriving DecidableEq, Repr

/-- A token of the request line. -/
inductive RequestToken
  | method | path | version
  deriving DecidableEq, Repr

/-- Why bytes are no request. -/
inductive RequestError
  | empty
  | missingTerminator
  | invalidRequestLine
  | tokenTooLong (token : RequestToken)
  | invalidEncoding
  | invalidContentLength (value : Text)
  deriving DecidableEq, Repr

namespace RequestError

def message : RequestError → Text
  | .empty => "Empty request".toList
  | .missingTerminator => "Malformed request: no header terminator".toList
  | .invalidRequestLine => "Invalid request line format".toList
  | .tokenTooLong .method => "Request line method too long".toList
  | .tokenTooLong .path => "Request line path too long".toList
  | .tokenTooLong .version => "Request line version too long".toList
  | .invalidEncoding => "Header section is not valid UTF-8".toList
  | .invalidContentLength value => "Invalid Content-Length: ".toList ++ value

end RequestError

/-- The empty line after the last header, with the end of that header's line. -/
def terminator : Bytes := [13, 10, 13, 10]

/-- The place of the first terminator, counted from `i`. -/
def headEndFrom (i : Nat) : Bytes → Option Nat
  | [] => none
  | b :: bs => if terminator.isPrefixOf (b :: bs) then some i else headEndFrom (i + 1) bs

def headEnd? (bs : Bytes) : Option Nat := headEndFrom 0 bs

def contentLength : Text := "Content-Length".toList

namespace Headers

/-- A line with a colon is a header; its name and its value stand around the first colon. -/
def ofLine? (line : Text) : Option Header :=
  (Text.cut? [':'] line).map fun (name, value) => ⟨Text.trim name, Text.trim value⟩

/-- The first `limit` headers before a blank line. Lines without a colon count for nothing. -/
def ofLines (limit : Nat) (lines : List Text) : Headers :=
  ((lines.takeWhile fun l => ! (Text.trim l).isEmpty).filterMap ofLine?).take limit

/-- The length that the first Content-Length declares. -/
def declaredLength (hs : Headers) : Except RequestError (Option Nat) :=
  match hs.get? contentLength with
  | none => .ok none
  | some value =>
    match Text.size? value with
    | some n => .ok (some n)
    | none => .error (.invalidContentLength value)

/-- Headers as lines, each with its end. -/
def print (hs : Headers) : Text :=
  hs.flatMap fun h => h.name ++ ": ".toList ++ h.value ++ "\r\n".toList

end Headers

/-- The length declared in a head that need not be well-formed text. All lines after the first
count, and none ends the section. -/
def declaredLength (head : Bytes) : Except RequestError (Option Nat) :=
  Headers.declaredLength (((Text.lines (Utf8.decodeLossy head)).drop 1).filterMap Headers.ofLine?)

namespace Request

def defaultHeaderLimit : Nat := 50

def methodLimit : Nat := 15
def pathLimit : Nat := 1023
def versionLimit : Nat := 15

/-- White space in ASCII; the vertical tab is not among it. -/
def isAsciiBlank (b : UInt8) : Bool := b == 32 || b == 9 || b == 10 || b == 12 || b == 13

/-- The first three words of the request line; further words are ignored. -/
def requestLine (line : Text) : Except RequestError (Text × Text × Text) :=
  match (line.splitOn ' ').filter fun w => ! w.isEmpty with
  | method :: path :: version :: _ =>
    if Text.byteLength method > methodLimit then .error (.tokenTooLong .method)
    else if Text.byteLength path > pathLimit then .error (.tokenTooLong .path)
    else if Text.byteLength version > versionLimit then .error (.tokenTooLong .version)
    else .ok (method, path, version)
  | _ => .error .invalidRequestLine

/-- The request with this head and with `rest` after its terminator. -/
def ofHead (limit : Nat) (head : Text) (rest : Bytes) : Except RequestError Request :=
  match Text.lines head with
  | [] => .error .invalidRequestLine
  | first :: others => do
    let (method, path, version) ← requestLine first
    let headers := Headers.ofLines limit others
    let declared ← headers.declaredLength
    return { method, path, version, headers, body := rest.take (declared.getD rest.length) }

/-- Reads a whole request, keeping at most `limit` headers. -/
def parse (limit : Nat) (bs : Bytes) : Except RequestError Request :=
  if bs.all isAsciiBlank then .error .empty
  else
    match headEnd? bs with
    | none => .error .missingTerminator
    | some h =>
      match Utf8.decode? (bs.take h) with
      | none => .error .invalidEncoding
      | some head => ofHead limit head (bs.drop (h + terminator.length))

def header? (r : Request) (name : Text) : Option Text := r.headers.get? name

/-- The body as text, if it is well-formed. -/
def bodyText? (r : Request) : Option Text := Utf8.decode? r.body

def form (r : Request) : List (Text × Text) := Form.parse (Utf8.decodeLossy r.body)

def formValue? (r : Request) (key : Text) : Option Text := Form.get? r.form key

/-- The wire form: request line, headers, empty line, body. -/
def toBytes (r : Request) : Bytes :=
  Utf8.encode (r.method ++ ' ' :: r.path ++ ' ' :: r.version ++ "\r\n".toList ++ r.headers.print ++
    "\r\n".toList) ++ r.body

end Request
end WebHost.Http
