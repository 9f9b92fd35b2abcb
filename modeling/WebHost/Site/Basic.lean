import WebHost.Site.Endpoint
import WebHost.Site.Routes
import WebHost.Site.StaticFile

/-! The site: its accounts, its routes, and how it answers a request. -/
namespace WebHost
open Http

structure Site where
  accounts : Accounts := {}
  routes : Routes := {}
  /-- How many operations there have been. -/
  elapsed : Nat := 0

/-- What the site finds around it and does not change. -/
structure Surroundings where
  files : Files := fun _ => .error .notFound
  /-- Where the page for missing places is looked for. -/
  pages : Text := "templates".toList
  /-- The largest file that is served. -/
  fileLimit : Nat := StaticFile.defaultLimit

namespace Site

/-- The operations on accounts and on routes. -/
abbrev Op (β : Type) : Type := Accounts.Op β ⊕ Routes.Op β

/-- One operation. -/
def applyAt (m : Moment) {β : Type} (o : Op β) (s : Site) : β × Site :=
  match o with
  | .inl o =>
    let (answer, accounts) := o.apply m s.accounts
    (answer, { s with accounts, elapsed := s.elapsed + 1 })
  | .inr o =>
    let (answer, routes) := o.apply s.routes
    (answer, { s with routes, elapsed := s.elapsed + 1 })

/-- A run in which the operation numbered `n` happens at the moment `timeline n`. -/
def run {α : Type} (timeline : Nat → Moment) (p : Action Op α) (s : Site) : α × Site :=
  p.run (fun o s => applyAt (timeline s.elapsed) o s) s

def missingName : Text := "error.html".toList

/-- The page for places that are missing. -/
def notFound (w : Surroundings) : Response :=
  match Template.renderFile w.files w.pages missingName (Values.ofPairs
      [("title".toList, "Page Not Found".toList),
       ("message".toList, "The requested page could not be found.".toList),
       ("error_code".toList, "404".toList)]) with
  | .ok text => .html .notFound (Utf8.encode text)
  | .error _ => .text .notFound "404 Not Found".toList

def echo (request : Request) (response : Response) : Response :=
  let described := (response.setHeader "X-Method".toList request.method).setHeader
    "X-Body-Length".toList (Text.decimal request.body.length)
  { described with body := some request.body }

end Site

/-- One step of a script. Other requests are answered by `inner`. -/
def HandlerStep.respond (inner : Request → Action Site.Op Response) (request : Request)
    (response : Response) : HandlerStep → Action Site.Op Response
  | .setStatus status => pure { response with status }
  | .setHeader name value => pure (response.setHeader name value)
  | .setBody body => pure { response with body := some body }
  | .echo => pure (Site.echo request response)
  | .addRoute method path handler => do
    let _ ← Action.perform (.inr (.addRoute ⟨method, path, handler⟩))
    pure response
  | .dispatch raw =>
    match Request.parse Request.defaultHeaderLimit raw with
    | .error _ => pure response
    | .ok other => inner other

/-- The response a script makes of an earlier one. -/
def HandlerStep.respondAll (inner : Request → Action Site.Op Response) (request : Request)
    (response : Response) (steps : List HandlerStep) : Action Site.Op Response :=
  steps.foldlM (fun response step => step.respond inner request response) response

def Handler.respond (w : Surroundings) (inner : Request → Action Site.Op Response)
    (request : Request) : Handler → Action Site.Op Response
  | .endpoint e pages => (e.respond w.files pages request).lift Sum.inl
  | .script steps => HandlerStep.respondAll inner request {} steps

namespace Site

/-- Finds who answers, and lets him. Handlers may have other requests answered within, no deeper
than `depth`. -/
def dispatch (w : Surroundings) : Nat → Request → Action Op Response
  | 0, _ => pure Endpoint.fault
  | depth + 1, request => do
    match ← Action.perform (.inr (.resolve request.method request.path)) with
    | .handler h => h.respond w (dispatch w depth) request
    | .file path => pure (StaticFile.serve w.files w.fileLimit path)
    | .missing => pure (notFound w)

/-- The answer to a request that comes alone, and the site after it. -/
def respond (timeline : Nat → Moment) (w : Surroundings) (request : Request) (s : Site) :
    Response × Site :=
  s.run timeline (dispatch w (s.routes.depth + 1) request)

/-- The path that is looked at to answer a request by an endpoint, a file or the page for missing
places. -/
def pathFor? (pages : Text) (request : Request) (s : Site) : Option Text :=
  match s.routes.resolve request.method request.path with
  | .handler (.endpoint e pages) => e.pageName?.map (FilePath.join pages)
  | .handler (.script _) => none
  | .file path => some path
  | .missing => some (FilePath.join pages missingName)

/-- Adds the routes of all endpoints, with their pages below `pages`, and a static route. -/
def addEndpoints (pages : Text) (static : StaticRoute) (t : Routes) : Routes :=
  (Endpoint.all.foldl (fun t e => t.addRoute ⟨e.method, e.path, .endpoint e pages⟩) t).addStatic
    static

end Site
end WebHost
