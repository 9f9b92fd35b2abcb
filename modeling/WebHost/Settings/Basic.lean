import WebHost.Text.Blank
import WebHost.Text.Decimal

/-! What the server can be told: where to listen, where its files are, and its limits. -/
namespace WebHost

structure Settings where
  host : Text := "0.0.0.0".toList
  port : UInt16 := 5000
  /-- The start of the paths that are answered with files. -/
  staticLead : Text := "/static".toList
  staticRoot : Text := "static".toList
  pages : Text := "templates".toList
  usersFile : Text := "data/users.json".toList
  /-- How many bytes of a request are held. -/
  requestLimit : UInt64 := 65536
  fileLimit : UInt64 := 65536
  headerLimit : UInt64 := 50
  /-- In milliseconds. Zero means to wait for ever. -/
  patience : UInt64 := 5000
  /-- How many connections are served at a time. Zero means any number. -/
  connectionLimit : UInt64 := 0
  log : Text := "server.log".toList
  deriving DecidableEq, Repr

inductive SettingsError
  | noRequestBytes
  | noFileBytes
  | noHeaders
  | emptyLead
  | leadWithoutSlash
  deriving DecidableEq, Repr

def SettingsError.message : SettingsError → Text
  | .noRequestBytes => "Max request bytes must be >= 1".toList
  | .noFileBytes => "Max file bytes must be >= 1".toList
  | .noHeaders => "Max headers must be >= 1".toList
  | .emptyLead => "Static prefix must not be empty".toList
  | .leadWithoutSlash => "Static prefix must start with '/'".toList

namespace Settings

def validate (s : Settings) : Except SettingsError Unit :=
  if s.requestLimit = 0 then .error .noRequestBytes
  else if s.fileLimit = 0 then .error .noFileBytes
  else if s.headerLimit = 0 then .error .noHeaders
  else if s.staticLead.isEmpty then .error .emptyLead
  else if s.staticLead.head? ≠ some '/' then .error .leadWithoutSlash
  else .ok ()

/-- Where to listen. -/
def address (s : Settings) : Text := s.host ++ ':' :: Text.decimal s.port.toNat

/-- How long a read may take, if there is a limit. -/
def readTimeout? (s : Settings) : Option UInt64 := if s.patience = 0 then none else some s.patience

/-- The path of the log file, if there is to be one. -/
def logFile? (s : Settings) : Option Text :=
  match Text.trim s.log with
  | [] => none
  | path => some path

end Settings
end WebHost
