import WebHost.Http.Intake
import WebHost.Http.Response

/-! One connection: one request is taken off it, answered, and the connection closed. -/
namespace WebHost.Connection
open Http

/-- What a connection gets that is not understood. -/
def malformed : Response := .text .badRequest "Bad Request".toList

/-- What a connection gets that finds no room. -/
def refusal : Response := .text .serviceUnavailable "Service Unavailable".toList

/-- The last response on a connection, which says so. -/
def closing (r : Response) : Response := r.setHeader "Connection".toList "close".toList

/-- The pieces written to a connection in return for what `takeRequest` has taken. Nothing is
written to one that has sent nothing, nor to one whose worker was stopped for want of a buffer, and
reading failures are handed on. -/
def answer {m : Type → Type u} [Monad m] (dispatch : Request → m Response) (headerLimit : Nat) :
    Except IntakeError Bytes → m (Except IoError (List Bytes))
  | .error .noBuffer | .error .closed => pure (.ok [])
  | .error (.malformed _) => pure (.ok [(closing malformed).toBytes])
  | .error (.io e) => pure (.error e)
  | .ok raw =>
    match Request.parse headerLimit raw with
    | .error _ => pure (.ok [(closing malformed).toBytes])
    | .ok request => do
      let response ← dispatch request
      pure (.ok [(closing response).toBytes])

/-- Serves a connection with a buffer of `capacity` bytes. -/
def serve {m : Type → Type u} [Monad m] (dispatch : Request → m Response)
    (capacity headerLimit : Nat) (s : Stream) : m (Except IoError (List Bytes)) :=
  answer dispatch headerLimit (s.takeRequest capacity).1

end WebHost.Connection
