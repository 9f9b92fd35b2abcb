import WebHost.Settings.Basic
import WebHost.Text.Cut

/-! Settings from the words of a command line and from the environment. A word counts before a
variable, and a variable before the default. -/
namespace WebHost
namespace Settings

/-- The settings by name. -/
inductive Field
  | host | port | staticLead | staticRoot | pages | usersFile
  | requestLimit | fileLimit | headerLimit | patience | connectionLimit | log
  deriving DecidableEq, Repr

namespace Field

/-- All fields, in the order in which their variables are read. -/
def all : List Field :=
  [.host, .port, .staticLead, .staticRoot, .pages, .usersFile,
   .requestLimit, .fileLimit, .headerLimit, .patience, .connectionLimit, .log]

/-- The name of the option, without the dashes. -/
def optionName : Field → Text
  | .host => "host".toList
  | .port => "port".toList
  | .staticLead => "static-prefix".toList
  | .staticRoot => "static-dir".toList
  | .pages => "templates-dir".toList
  | .usersFile => "users-file".toList
  | .requestLimit => "max-request-bytes".toList
  | .fileLimit => "max-file-bytes".toList
  | .headerLimit => "max-headers".toList
  | .patience => "read-timeout-ms".toList
  | .connectionLimit => "max-connections".toList
  | .log => "log-file".toList

/-- The environment variable. -/
def variableName : Field → Text
  | .host => "HTTP_HOST".toList
  | .port => "HTTP_PORT".toList
  | .staticLead => "STATIC_PREFIX".toList
  | .staticRoot => "STATIC_DIR".toList
  | .pages => "TEMPLATES_DIR".toList
  | .usersFile => "USERS_FILE".toList
  | .requestLimit => "MAX_REQUEST_BYTES".toList
  | .fileLimit => "MAX_FILE_BYTES".toList
  | .headerLimit => "MAX_HEADERS".toList
  | .patience => "READ_TIMEOUT_MS".toList
  | .connectionLimit => "MAX_CONNECTIONS".toList
  | .log => "LOG_FILE".toList

def ofOption? (name : Text) : Option Field := all.find? fun f => f.optionName == name

end Field

def limit? (t : Text) : Option UInt64 := (Text.size? t).map UInt64.ofNat

/-- The settings with one field as the text says, unless the text is no number where one is due. -/
def put? (s : Settings) (f : Field) (value : Text) : Option Settings :=
  match f with
  | .host => some { s with host := value }
  | .port => (Text.port? value).map fun port => { s with port }
  | .staticLead => some { s with staticLead := value }
  | .staticRoot => some { s with staticRoot := value }
  | .pages => some { s with pages := value }
  | .usersFile => some { s with usersFile := value }
  | .requestLimit => (limit? value).map fun requestLimit => { s with requestLimit }
  | .fileLimit => (limit? value).map fun fileLimit => { s with fileLimit }
  | .headerLimit => (limit? value).map fun headerLimit => { s with headerLimit }
  | .patience => (limit? value).map fun patience => { s with patience }
  | .connectionLimit => (limit? value).map fun connectionLimit => { s with connectionLimit }
  | .log => some { s with log := value }

end Settings

namespace CommandLine
open Settings (Field)

/-- Why a command line gives no settings. To ask for help or for the version is among the reasons. -/
inductive Refusal
  | unknownWord
  | missingValue
  | badValue
  | repeated
  | valueNotTaken
  | help
  | version
  deriving DecidableEq, Repr

inductive Word
  /-- Two dashes: no options follow. -/
  | escape
  | long (name : Text) (value : Option Text)
  | short (letter : Char) (rest : Text)
  | plain (t : Text)
  deriving DecidableEq, Repr

/-- A single dash is a plain word. -/
def Word.ofText : Text → Word
  | ['-', '-'] => .escape
  | '-' :: '-' :: r =>
    match Text.cut? ['='] r with
    | some (name, value) => .long name (some value)
    | none => .long r none
  | '-' :: c :: r => .short c r
  | t => .plain t

/-- What has been read of a command line. -/
structure Reader where
  settings : Settings := {}
  /-- The fields that have been given. -/
  given : List Field := []
  /-- A field whose value may come, or has come, as a word of its own. -/
  waiting : Option (Field × Option Text) := none
  escaped : Bool := false
  deriving DecidableEq, Repr

namespace Reader

def take (r : Reader) (f : Field) (value : Text) : Except Refusal Reader :=
  if r.given.contains f then .error .repeated
  else
    match r.settings.put? f value with
    | none => .error .badValue
    | some settings => .ok { r with settings, given := f :: r.given }

/-- Takes the value of the waiting field, which is looked at only now. -/
def settle (r : Reader) : Except Refusal Reader :=
  match r.waiting with
  | none => .ok r
  | some (_, none) => .error .missingValue
  | some (f, some value) => { r with waiting := none }.take f value

/-- A field with the value that stands in the same word, if one does. -/
def option (r : Reader) (f : Field) (value : Option Text) : Except Refusal Reader := do
  let r ← r.settle
  match value with
  | some value => r.take f value
  | none => .ok { r with waiting := some (f, none) }

def ask (r : Reader) (reason : Refusal) : Except Refusal Reader := do
  let _ ← r.settle
  .error reason

def long (r : Reader) (name : Text) (value : Option Text) : Except Refusal Reader :=
  match Field.ofOption? name with
  | some f => r.option f value
  | none =>
    if name = "help".toList then if value.isSome then .error .valueNotTaken else r.ask .help
    else if name = "version".toList then
      if value.isSome then .error .valueNotTaken else r.ask .version
    else .error .unknownWord

/-- The value of a short option stands in the same word, with or without an equals sign. -/
def shortValue : Text → Option Text
  | [] => none
  | '=' :: r => some r
  | r => some r

def short (r : Reader) (letter : Char) (rest : Text) : Except Refusal Reader :=
  if letter = 'p' then r.option .port (shortValue rest)
  else if letter = 'h' then r.ask .help
  else if letter = 'V' then r.ask .version
  else .error .unknownWord

def step (r : Reader) (t : Text) : Except Refusal Reader :=
  if r.escaped then .error .unknownWord
  else
    match Word.ofText t with
    | .escape => .ok { r with escaped := true }
    | .long name value => r.long name value
    | .short letter rest => r.short letter rest
    | .plain value =>
      match r.waiting with
      | some (f, none) => .ok { r with waiting := some (f, some value) }
      | _ => .error .unknownWord

/-- Reads the variable of a field that no word has given. -/
def consult (environment : List (Text × Text)) (r : Reader) (f : Field) : Except Refusal Reader :=
  if r.given.contains f then .ok r
  else
    match environment.lookup f.variableName with
    | none => .ok r
    | some value => r.take f value

end Reader

def read (words : List Text) (environment : List (Text × Text)) : Except Refusal Settings := do
  let r ← words.foldlM Reader.step {}
  let r ← r.settle
  let r ← Field.all.foldlM (Reader.consult environment) r
  return r.settings

end CommandLine
end WebHost
