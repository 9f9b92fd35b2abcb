import WebHost.Text.Decimal

/-! Status codes. Any number of 16 bits is a code; ten of them have a reason of their own. -/
namespace WebHost.Http

structure Status where
  code : UInt16
  deriving DecidableEq, Repr

namespace Status

def ok : Status := ⟨200⟩
def created : Status := ⟨201⟩
def noContent : Status := ⟨204⟩
def badRequest : Status := ⟨400⟩
def unauthorized : Status := ⟨401⟩
def forbidden : Status := ⟨403⟩
def notFound : Status := ⟨404⟩
def methodNotAllowed : Status := ⟨405⟩
def internalServerError : Status := ⟨500⟩
def serviceUnavailable : Status := ⟨503⟩

instance : Inhabited Status := ⟨ok⟩

def reason (s : Status) : Text :=
  if s = ok then "OK".toList
  else if s = created then "Created".toList
  else if s = noContent then "No Content".toList
  else if s = badRequest then "Bad Request".toList
  else if s = unauthorized then "Unauthorized".toList
  else if s = forbidden then "Forbidden".toList
  else if s = notFound then "Not Found".toList
  else if s = methodNotAllowed then "Method Not Allowed".toList
  else if s = internalServerError then "Internal Server Error".toList
  else if s = serviceUnavailable then "Service Unavailable".toList
  else "Unknown".toList

/-- The code and its reason, as in a status line. -/
def text (s : Status) : Text := Text.decimal s.code.toNat ++ ' ' :: s.reason

def isSuccess (s : Status) : Bool := 200 ≤ s.code && s.code < 300
def isClientError (s : Status) : Bool := 400 ≤ s.code && s.code < 500
def isServerError (s : Status) : Bool := 500 ≤ s.code && s.code < 600

end Status
end WebHost.Http
