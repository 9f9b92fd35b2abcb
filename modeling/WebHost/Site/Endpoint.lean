import WebHost.Site.Access
import WebHost.Site.Handler
import WebHost.Template

/-! How the endpoints answer: pages from templates, and JSON about the accounts. Text that a page
shows has the characters of the markup written as entities. -/
namespace WebHost
open Http

namespace Text

/-- The entity of a character that markup would take for its own. -/
def entity? (c : Char) : Option Text :=
  if c = '&' then some "&amp;".toList
  else if c = '<' then some "&lt;".toList
  else if c = '>' then some "&gt;".toList
  else if c = '\x22' then some "&quot;".toList
  else if c = '\x27' then some "&#39;".toList
  else none

def escapeMarkup (t : Text) : Text := t.flatMap fun c => (entity? c).getD [c]

end Text

namespace Endpoint

def serverName : Text := "Ternic Web Server".toList
def version : Text := "0.1.0".toList

def fault : Response := .text .internalServerError "Internal Server Error".toList

/-- A rendered page, or a fault if it cannot be read. -/
def page (files : Files) (pages name : Text) (values : List (Text × Text)) : Response :=
  match Template.renderFile files pages name (Values.ofPairs values) with
  | .ok text => .html .ok (Utf8.encode text)
  | .error _ => fault

/-- A flat JSON object. Its members stand in the order of their names. -/
def object (status : Status) (members : List (Text × Json.Scalar)) : Response :=
  .json status (Utf8.encode (Json.printObject members))

/-- The page that an endpoint shows, if it shows one. -/
def pageName? : Endpoint → Option Text
  | .home => some "maintenance.html".toList
  | .about => some "server.html".toList
  | .submit => some "index.html".toList
  | _ => none

def homePage (files : Files) (pages : Text) : Response :=
  page files pages "maintenance.html".toList
    [("root_title".toList, "Ternic: Maintenance".toList),
     ("root_message".toList, "Maintenance Mode".toList)]

def aboutPage (files : Files) (pages : Text) : Response :=
  page files pages "server.html".toList
    [("title".toList, "Server Information".toList),
     ("message".toList, "Information about the server running this dashboard.".toList),
     ("version".toList, version)]

def statusReport : Response :=
  object .ok
    [("server".toList, .text serverName),
     ("status".toList, .text "running".toList),
     ("version".toList, .text version)]

/-- What a page shows of a body. -/
def shown (request : Request) : Text :=
  match request.bodyText? with
  | none => "(binary data)".toList
  | some [] => "No data received".toList
  | some text => Text.escapeMarkup text

def submitPage (files : Files) (pages : Text) (request : Request) : Response :=
  page files pages "index.html".toList
    [("title".toList, "POST Data Received".toList), ("data".toList, shown request)]

def registerAnswer (username : Text) : Except AccountError Nat → Response
  | .ok id => object .created [("id".toList, .number id), ("username".toList, .text username)]
  | .error (.io _) | .error (.corrupt _) =>
    .problem .internalServerError "Internal Server Error".toList
  | .error e => .problem .badRequest e.message

def doRegister (request : Request) : Action Accounts.Op Response :=
  match request.formValue? "username".toList, request.formValue? "email".toList,
      request.formValue? "password".toList with
  | some username, some email, some password => do
    let outcome ← Action.perform (.register username email password)
    pure (registerAnswer username outcome)
  | _, _, _ => pure (.problem .badRequest "username, email and password are required".toList)

def loginAnswer (id : Nat) (token : Text) : Response :=
  object .ok
    [("expires_in".toList, .number Accounts.defaultLifetime),
     ("token".toList, .text token),
     ("user_id".toList, .number id)]

def doLogin (request : Request) : Action Accounts.Op Response :=
  match request.formValue? "username".toList, request.formValue? "password".toList with
  | some username, some password => do
    match ← Action.perform (.authenticate username password) with
    | .error _ => pure (.problem .unauthorized "Invalid credentials".toList)
    | .ok id =>
      match ← Action.perform (.openSession id (request.header? "X-Forwarded-For".toList)) with
      | .error _ => pure (.problem .serviceUnavailable "Too many sessions".toList)
      | .ok token => pure (loginAnswer id token)
  | _, _ => pure (.problem .badRequest "username and password are required".toList)

def loggedOut : Response := object .ok [("status".toList, .text "logged out".toList)]

def doLogout (request : Request) : Action Accounts.Op Response := do
  match ← Access.requireLogin request {} with
  | (none, refusal) => pure refusal
  | (some _, _) =>
    match (request.header? Access.authorization).bind Access.bearerToken? with
    | none => pure loggedOut
    | some token => do
      let _ ← Action.perform (.closeSession token)
      pure loggedOut

def profile (u : Account) : Response :=
  object .ok
    [("created_at".toList, .number u.createdAt),
     ("email".toList, .text u.email),
     ("id".toList, .number u.id),
     ("last_login".toList, .number u.lastLogin),
     ("role".toList, .text u.role.name),
     ("username".toList, .text u.username)]

def doMe (request : Request) : Action Accounts.Op Response := do
  match ← Access.requireLogin request {} with
  | (none, refusal) => pure refusal
  | (some id, _) =>
    match ← Action.perform (.userById id) with
    | none => pure (.problem .notFound "User not found".toList)
    | some u => pure (profile u)

def doAdmin (request : Request) : Action Accounts.Op Response := do
  match ← Access.requireAdmin request {} with
  | (none, refusal) => pure refusal
  | (some _, _) =>
    let users ← Action.perform .userCount
    let sessions ← Action.perform .sessionCount
    pure (object .ok [("sessions".toList, .number sessions), ("users".toList, .number users)])

/-- The answer of an endpoint whose pages are below `pages`. -/
def respond (files : Files) (pages : Text) (request : Request) : Endpoint → Action Accounts.Op Response
  | .home => pure (homePage files pages)
  | .about => pure (aboutPage files pages)
  | .status => pure statusReport
  | .submit => pure (submitPage files pages request)
  | .register => doRegister request
  | .login => doLogin request
  | .logout => doLogout request
  | .me => doMe request
  | .admin => doAdmin request

end Endpoint
end WebHost
