import WebHost.Accounts.Op
import WebHost.Http.Response

/-! Who may pass: the bearer of a live session, and for some places an administrator. Whoever is
turned away gets a response that says why. -/
namespace WebHost.Access
open Http

def authorization : Text := "Authorization".toList

/-- The token in the value of an Authorization header. -/
def bearerToken? (value : Text) : Option Text :=
  ((Text.after? "Bearer ".toList value).map Text.trim).filter fun t => ! t.isEmpty

def unnamed : Response := .problem .unauthorized "Authorization header required".toList
def malformed : Response := .problem .unauthorized "Invalid authorization format".toList
def expired : Response := .problem .unauthorized "Invalid or expired session".toList
def notAdmin : Response := .problem .forbidden "Admin access required".toList

/-- The number of the account that the request's session is for, and the response so far; or
nobody and a refusal. -/
def requireLogin (request : Request) (response : Response) :
    Action Accounts.Op (Option Nat × Response) :=
  match request.header? authorization with
  | none => pure (none, unnamed)
  | some value =>
    match bearerToken? value with
    | none => pure (none, malformed)
    | some token => do
      match ← Action.perform (.validate token) with
      | some session => pure (some session.userId, response)
      | none => pure (none, expired)

/-- Admits the accounts that `requireLogin` admits and that are administrators. -/
def requireAdmin (request : Request) (response : Response) :
    Action Accounts.Op (Option Nat × Response) := do
  match ← requireLogin request response with
  | (none, refusal) => pure (none, refusal)
  | (some id, response) =>
    match ← Action.perform (.userById id) with
    | none => pure (none, notAdmin)
    | some u => if u.role = .admin then pure (some id, response) else pure (none, notAdmin)

end WebHost.Access
