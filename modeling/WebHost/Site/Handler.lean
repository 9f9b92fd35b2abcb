import WebHost.Http.Status
import WebHost.Text.Basic

/-! What answers a request: an endpoint of the site, or a script of changes to the response. -/
namespace WebHost

/-- The pages and services of the site. -/
inductive Endpoint
  | home | about | status | submit | register | login | logout | me | admin
  deriving DecidableEq, Repr

namespace Endpoint

/-- All endpoints, in the order in which their routes are added. -/
def all : List Endpoint :=
  [.home, .about, .status, .submit, .register, .login, .logout, .me, .admin]

def method : Endpoint → Text
  | .home | .about | .status | .me | .admin => "GET".toList
  | .submit | .register | .login | .logout => "POST".toList

def path : Endpoint → Text
  | .home => "/".toList
  | .about => "/server".toList
  | .status => "/api/status".toList
  | .submit => "/submit".toList
  | .register => "/api/register".toList
  | .login => "/api/login".toList
  | .logout => "/api/logout".toList
  | .me => "/api/me".toList
  | .admin => "/api/admin".toList

end Endpoint

mutual
inductive Handler
  /-- An endpoint whose pages are below `pages`. -/
  | endpoint (e : Endpoint) (pages : Text)
  | script (steps : List HandlerStep)

/-- A step of a script, which starts with an empty response. -/
inductive HandlerStep
  | setStatus (status : Http.Status)
  | setHeader (name value : Text)
  | setBody (body : Bytes)
  /-- Describes the request: its method and the length of its body in headers, and its body. -/
  | echo
  /-- Adds a route to the site that is answering. -/
  | addRoute (method path : Text) (handler : Handler)
  /-- Answers as the site does to these bytes, if they are a request. -/
  | dispatch (raw : Bytes)
end

instance : Inhabited Handler := ⟨.script []⟩

mutual
/-- How many routes a handler can add, those that their handlers add included. -/
def Handler.additions : Handler → Nat
  | .endpoint _ _ => 0
  | .script steps => HandlerStep.additionsOf steps

def HandlerStep.additionsOf : List HandlerStep → Nat
  | [] => 0
  | s :: ss => s.additions + HandlerStep.additionsOf ss

def HandlerStep.additions : HandlerStep → Nat
  | .addRoute _ _ handler => handler.additions + 1
  | _ => 0
end

end WebHost
