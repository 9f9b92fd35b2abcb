import WebHost.Site.Handler

/-! The route table. A route for the exact method and path comes before every static prefix, and
an earlier entry comes before a later one. -/
namespace WebHost

structure Route where
  method : Text
  path : Text
  handler : Handler

/-- Files below `root` for the paths that start with `lead`. -/
structure StaticRoute where
  lead : Text
  root : Text
  deriving DecidableEq, Repr

structure Routes where
  exact : List Route := []
  static : List StaticRoute := []

/-- Why a route could not be added. -/
inductive RouteError
  | outOfMemory (route : Text)
  deriving DecidableEq, Repr

def RouteError.message : RouteError → Text
  | .outOfMemory route => "out of memory while adding route ".toList ++ route

/-- Who answers. -/
inductive Target
  | handler (h : Handler)
  | file (path : Text)
  | missing

namespace StaticRoute

/-- The rest of a path after its lead, without one slash in front. -/
def rest? (s : StaticRoute) (path : Text) : Option Text :=
  (Text.after? s.lead path).map fun r => (Text.after? ['/'] r).getD r

def file? (s : StaticRoute) (path : Text) : Option Text :=
  (s.rest? path).map fun r => s.root ++ '/' :: r

end StaticRoute

namespace Routes

def addRoute (t : Routes) (r : Route) : Routes := { t with exact := t.exact ++ [r] }

def addStatic (t : Routes) (s : StaticRoute) : Routes := { t with static := t.static ++ [s] }

def resolve (t : Routes) (method path : Text) : Target :=
  match t.exact.find? fun r => r.method == method && r.path == path with
  | some r => .handler r.handler
  | none =>
    match t.static.findSome? fun s => s.file? path with
    | some file => .file file
    | none => .missing

/-- How many routes there are or can be. Handlers that answer within one another and come to an
end are for different routes, so they are no deeper than this. -/
def depth (t : Routes) : Nat := t.exact.foldl (fun n r => n + (r.handler.additions + 1)) 0

/-- The operations on the table. Each has the table alone while it runs. -/
inductive Op : Type → Type
  | addRoute (r : Route) : Op (Except RouteError Unit)
  | addStatic (s : StaticRoute) : Op (Except RouteError Unit)
  | resolve (method path : Text) : Op Target

def Op.apply {β : Type} (t : Routes) : Op β → β × Routes
  | .addRoute r => (.ok (), t.addRoute r)
  | .addStatic s => (.ok (), t.addStatic s)
  | .resolve method path => (t.resolve method path, t)

/-- The answer where memory is short, which leaves the table as it is. -/
def Op.refusal? {β : Type} : Op β → Option β
  | .addRoute r => some (.error (.outOfMemory (r.method ++ ' ' :: r.path)))
  | .addStatic s => some (.error (.outOfMemory s.lead))
  | .resolve _ _ => none

end Routes
end WebHost
