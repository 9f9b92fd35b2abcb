import WebHost.Accounts.Basic
import WebHost.Disk.Change
import WebHost.Json.Compact
import WebHost.Json.Value

/-! The users file: a JSON list of accounts, written through a temporary file beside it. -/
namespace WebHost.UsersFile

/-- The members of an account and their JSON text, in the order of the file. -/
def members (u : Account) : List (Text × Text) :=
  [("id".toList, Text.decimal u.id),
   ("username".toList, Json.quote u.username),
   ("email".toList, Json.quote u.email),
   ("password_hash".toList, Json.quote u.passwordHash),
   ("salt".toList, Json.quote u.salt),
   ("created_at".toList, Text.decimal u.createdAt),
   ("last_login".toList, Text.decimal u.lastLogin),
   ("active".toList, if u.active then "true".toList else "false".toList),
   ("role".toList, Json.quote u.role.name)]

def printMember (m : Text × Text) : Text := "    ".toList ++ Json.quote m.1 ++ ": ".toList ++ m.2

def printAccount (u : Account) : Text :=
  "  \x7b\n".toList ++ ",\n".toList.intercalate ((members u).map printMember) ++ "\n  \x7d".toList

/-- The document: two blanks for each level, and nothing inside the brackets of an empty list. -/
def print (us : List Account) : Text :=
  if us.isEmpty then "[]".toList
  else "[\n".toList ++ ",\n".toList.intercalate (us.map printAccount) ++ "\n]".toList

def toBytes (us : List Account) : Bytes := Utf8.encode (print us)

open Json (Value)

def text? : Value → Option Text
  | .string t => t
  | _ => none

def natural? (bound : Nat) : Value → Option Nat
  | .number n => n.filter (· < bound)
  | _ => none

def bool? : Value → Option Bool
  | .bool b => some b
  | _ => none

def roleOfName? (t : Text) : Option Role :=
  if t = Role.user.name then some .user else if t = Role.admin.name then some .admin else none

/-- A role is its name, or an object with that one key and nothing under it. -/
def role? : Value → Option Role
  | .string (some t) => roleOfName? t
  | .object [(some t, .null)] => roleOfName? t
  | _ => none

/-- An account of nine values in the order of the file. -/
def ofItems? (id username email passwordHash salt createdAt lastLogin active role : Value) :
    Option Account := do
  return {
    id := ← natural? UInt32.size id
    username := ← text? username
    email := ← text? email
    passwordHash := ← text? passwordHash
    salt := ← text? salt
    createdAt := ← natural? Text.sizeBound createdAt
    lastLogin := ← natural? Text.sizeBound lastLogin
    active := ← bool? active
    role := ← role? role }

/-- The value of a key that occurs once. -/
def only? (ms : List (Option Text × Value)) (key : String) : Option Value :=
  match ms.filter fun m => m.1 == some key.toList with
  | [m] => some m.2
  | _ => none

/-- An account is an object that has each of the nine keys once, or the list of their values.
Further keys are passed over, but must be texts. -/
def account? : Value → Option Account
  | .array [a, b, c, d, e, f, g, h, i] => ofItems? a b c d e f g h i
  | .object ms => do
    guard (ms.all fun m => m.1.isSome)
    ofItems? (← only? ms "id") (← only? ms "username") (← only? ms "email")
      (← only? ms "password_hash") (← only? ms "salt") (← only? ms "created_at")
      (← only? ms "last_login") (← only? ms "active") (← only? ms "role")
  | _ => none

/-- The accounts of all items, or nothing if one is no account. -/
def accounts? (items : List Value) : Option (List Account) :=
  let read := items.map account?
  if read.all Option.isSome then some (read.filterMap id) else none

def parse (bs : Bytes) : Option (List Account) :=
  match Value.parse bs with
  | some (.array items) => accounts? items
  | _ => none

/-- The list that a file describes; a missing file describes none. -/
def ofEntry : Except FaultKind Entry → Except AccountError (Option (List Account))
  | .error .notFound => .ok none
  | .error k => .error (.io k.error)
  | .ok e =>
    match e.content? with
    | none => .error (.corrupt FaultKind.isADirectory.systemText)
    | some content =>
      match parse content with
      | none => .error (.corrupt "not a list of users".toList)
      | some us => if us.length > Accounts.userLimit then .error .tooManyUsers else .ok (some us)

/-- Takes over the accounts of a file and answers their number. Without a file nothing changes. -/
def load (files : Files) (path : Text) (a : Accounts) : Except AccountError Nat × Accounts :=
  match ofEntry (files path) with
  | .error e => (.error e, a)
  | .ok none => (.ok 0, a)
  | .ok (some us) => (.ok us.length, { a with users := us })

/-- The file that is written before it takes the place of the users file. -/
def temporary (path : Text) : Text := FilePath.withExtension "tmp".toList path

/-- The changes to the disk that save `us`, with the document written in these parts. -/
def savingParts (path : Text) (parts : List Bytes) : List Disk.Change :=
  let above := match FilePath.parent? path with
    | some (c :: cs) => [Disk.Change.makeDirectories (c :: cs)]
    | _ => []
  above ++ .create (temporary path) :: parts.map (.append (temporary path)) ++
    [.rename (temporary path) path]

def saving (path : Text) (us : List Account) : List Disk.Change := savingParts path [toBytes us]

def save (d : Disk) (path : Text) (us : List Account) : Except AccountError Unit × Disk :=
  match Disk.applyAll (saving path us) d with
  | (.ok (), d') => (.ok (), d')
  | (.error k, d') => (.error (.io k.error), d')

end WebHost.UsersFile
