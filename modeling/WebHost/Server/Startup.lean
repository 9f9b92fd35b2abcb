import WebHost.Accounts.UsersFile
import WebHost.Server.LogFile
import WebHost.Settings.CommandLine

/-! A run of the server from the command line to the end: the log file is opened, the settings are
checked, the accounts loaded, the site served, and after a stop the accounts are saved. -/
namespace WebHost

/-- Why the server does not come up, or ends. -/
inductive ServerError
  | bind (address : Text) (cause : IoError)
  | io (cause : IoError)
  | settings (reason : Text)
  | routes (e : RouteError)
  deriving DecidableEq, Repr

def ServerError.message : ServerError → Text
  | .bind address cause => "failed to bind ".toList ++ address ++ ": ".toList ++ cause.text
  | .io cause => "I/O error: ".toList ++ cause.text
  | .settings reason => "invalid configuration: ".toList ++ reason
  | .routes e => e.message

namespace Startup

/-- How a run ends. Without a code it has been killed. -/
structure Ending where
  code : Option UInt8
  out : Text := []
  err : Text := []
  deriving DecidableEq, Repr

def programName : Text := "ternic_server".toList

def versionLine : Text := programName ++ ' ' :: Endpoint.version ++ ['\n']

/-- The options, one a line. -/
def usage : Text :=
  "Usage: ".toList ++ programName ++ " [OPTIONS]\n\nOptions:\n".toList ++
    Settings.Field.all.flatMap fun f =>
      "  --".toList ++ f.optionName ++ " <VALUE>  [env: ".toList ++ f.variableName ++ "=]\n".toList

open CommandLine (Refusal)

def complaint : Refusal → Text
  | .missingValue => "error: a value is required\n".toList
  | .badValue => "error: invalid value\n".toList
  | .repeated => "error: an option cannot be used multiple times\n".toList
  | .valueNotTaken => "error: unexpected value\n".toList
  | _ => "error: unexpected argument\n".toList

/-- What a command line without settings ends in. -/
def refused : Refusal → Ending
  | .help => { code := some 0, out := usage }
  | .version => { code := some 0, out := versionLine }
  | r => { code := some 2, err := complaint r }

def logNotOpened (log : Text) (e : IoError) : Ending :=
  { code := some 1
    err := "no se pudo abrir el archivo de log ".toList ++ log ++ ": ".toList ++ e.text ++ ['\n'] }

/-- The book as a users file has it. One that cannot be used counts as empty. -/
def accountsOf (seen : Except FaultKind Entry) : Accounts :=
  match UsersFile.ofEntry seen with
  | .ok (some users) => { users }
  | _ => {}

def siteOf (s : Settings) (accounts : Accounts) : Site :=
  { accounts, routes := Site.addEndpoints s.pages ⟨s.staticLead, s.staticRoot⟩ {} }

/-- Serves with these settings. Nothing means that the process has been killed. -/
def serve (s : Settings) : Action Machine.Op (Option (Except ServerError Unit)) :=
  match s.validate with
  | .error e => pure (some (.error (.settings e.message)))
  | .ok () => do
    let seen ← Action.perform (.look s.usersFile)
    match ← Action.perform (.listen s.address) with
    | .error cause => pure (some (.error (.bind s.address cause)))
    | .ok () =>
      match ← Action.perform (.serve s (siteOf s (accountsOf seen))) with
      | none => pure none
      | some site => do
        let _ ← Machine.changeAll (UsersFile.saving s.usersFile site.accounts.users)
        pure (some (.ok ()))

def openLog (s : Settings) : Action Machine.Op (Except IoError Unit) :=
  match s.logFile? with
  | none => pure (.ok ())
  | some path => do
    match ← LogFile.openAt path with
    | .error e => pure (.error e)
    | .ok _ => pure (.ok ())

/-- A whole run. -/
def run (words : List Text) (environment : List (Text × Text)) : Action Machine.Op Ending :=
  match CommandLine.read words environment with
  | .error r => pure (refused r)
  | .ok s => do
    match ← openLog s with
    | .error e => pure (logNotOpened s.log e)
    | .ok () =>
      match ← serve s with
      | none => pure { code := none }
      | some (.error _) => pure { code := some 1 }
      | some (.ok ()) => pure { code := some 0 }

end Startup
end WebHost
