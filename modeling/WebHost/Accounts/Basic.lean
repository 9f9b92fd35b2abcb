import WebHost.Accounts.Credentials
import WebHost.Fault

/-! The book of accounts and of the sessions open on them. -/
namespace WebHost

inductive Role
  | user
  | admin
  deriving DecidableEq, Repr

def Role.name : Role → Text
  | .user => "user".toList
  | .admin => "admin".toList

/-- A registered user. Times count seconds; a last login of zero means none. -/
structure Account where
  id : Nat
  username : Text
  email : Text
  passwordHash : Text
  salt : Text
  createdAt : Nat
  lastLogin : Nat
  active : Bool
  role : Role
  deriving DecidableEq, Repr

structure Session where
  token : Text
  userId : Nat
  createdAt : Nat
  expiresAt : Nat
  address : Option Text
  deriving DecidableEq, Repr

/-- A session is live before the second at which it expires. -/
def Session.isLive (s : Session) (now : Nat) : Bool := now < s.expiresAt

inductive AccountError
  | invalidUsername
  | invalidEmail
  | weakPassword
  | userExists (username : Text)
  | tooManyUsers
  | userNotFound (username : Text)
  | userInactive (username : Text)
  | wrongPassword
  | tooManySessions
  | io (e : IoError)
  | corrupt (reason : Text)
  deriving DecidableEq, Repr

def AccountError.message : AccountError → Text
  | .invalidUsername => "invalid username".toList
  | .invalidEmail => "invalid email".toList
  | .weakPassword => "password too weak".toList
  | .userExists name => "user already exists: ".toList ++ name
  | .tooManyUsers => "maximum users reached".toList
  | .userNotFound name => "user not found: ".toList ++ name
  | .userInactive name => "user inactive: ".toList ++ name
  | .wrongPassword => "wrong password".toList
  | .tooManySessions => "maximum sessions reached".toList
  | .io e => "users file I/O error: ".toList ++ e.text
  | .corrupt reason => "users file is corrupt: ".toList ++ reason

/-- What the outside supplies to an operation: the time, and fresh random text. -/
structure Moment where
  now : Nat
  token : Text
  salt : Text
  deriving DecidableEq, Repr

structure Accounts where
  users : List Account := []
  sessions : List Session := []
  /-- How long a new session lasts, in seconds. -/
  lifetime : Nat := 3600
  deriving DecidableEq, Repr

namespace Accounts

def userLimit : Nat := 1000
def sessionLimit : Nat := 1000

/-- The lifetime of sessions unless another is set. -/
def defaultLifetime : Nat := 3600

/-- Times have 64 bits. -/
def timeBound : Nat := 18446744073709551616

/-- The second at which a session expires that is opened now. A sum beyond the bound goes round. -/
def expiry (now lifetime : Nat) : Nat := (now + lifetime) % timeBound

def userById? (a : Accounts) (id : Nat) : Option Account := a.users.find? fun u => u.id == id

def userByName? (a : Accounts) (name : Text) : Option Account :=
  a.users.find? fun u => u.username == name

/-- Changes the first account that passes a test. -/
def changeFirst (test : Account → Bool) (change : Account → Account) : List Account → List Account
  | [] => []
  | u :: us => if test u then change u :: us else u :: changeFirst test change us

@[simp] theorem length_changeFirst (t : Account → Bool) (f : Account → Account) (us : List Account) :
    (changeFirst t f us).length = us.length := by
  induction us with
  | nil => rfl
  | cons u us ih =>
    rw [changeFirst]
    split <;> simp [ih]

/-- Registers an account under the next number and answers that number. -/
def register (a : Accounts) (m : Moment) (username email password : Text) :
    Except AccountError Nat × Accounts :=
  if ! Credentials.isUsername username then (.error .invalidUsername, a)
  else if ! Credentials.isEmail email then (.error .invalidEmail, a)
  else if ! Credentials.isStrongPassword password then (.error .weakPassword, a)
  else if a.users.any fun u => u.username == username then (.error (.userExists username), a)
  else if a.users.length ≥ userLimit then (.error .tooManyUsers, a)
  else
    let id := a.users.length + 1
    let account : Account :=
      { id, username, email
        passwordHash := Credentials.hash password m.salt
        salt := m.salt
        createdAt := m.now
        lastLogin := 0
        active := true
        role := .user }
    (.ok id, { a with users := a.users ++ [account] })

/-- Checks a password and notes the login. -/
def authenticate (a : Accounts) (m : Moment) (username password : Text) :
    Except AccountError Nat × Accounts :=
  match a.userByName? username with
  | none => (.error (.userNotFound username), a)
  | some u =>
    if ! u.active then (.error (.userInactive username), a)
    else if ! Credentials.verify password u.salt u.passwordHash then (.error .wrongPassword, a)
    else
      (.ok u.id,
        { a with
          users := changeFirst (fun u => u.username == username)
            (fun u => { u with lastLogin := m.now }) a.users })

/-- Changes the account of that number; the answer says whether there is one. -/
def changeUser (a : Accounts) (id : Nat) (change : Account → Account) : Bool × Accounts :=
  ((a.userById? id).isSome, { a with users := changeFirst (fun u => u.id == id) change a.users })

def setRole (a : Accounts) (id : Nat) (role : Role) : Bool × Accounts :=
  a.changeUser id fun u => { u with role }

def setActive (a : Accounts) (id : Nat) (active : Bool) : Bool × Accounts :=
  a.changeUser id fun u => { u with active }

/-- Drops the sessions that have expired. -/
def purge (a : Accounts) (now : Nat) : Accounts :=
  { a with sessions := a.sessions.filter fun s => s.isLive now }

/-- Drops the expired sessions and answers how many there were. -/
def cleanup (a : Accounts) (m : Moment) : Nat × Accounts :=
  let kept := a.purge m.now
  (a.sessions.length - kept.sessions.length, kept)

/-- Opens a session and answers its token. The expired sessions make room first. -/
def openSession (a : Accounts) (m : Moment) (userId : Nat) (address : Option Text) :
    Except AccountError Text × Accounts :=
  let a := a.purge m.now
  if a.sessions.length ≥ sessionLimit then (.error .tooManySessions, a)
  else
    let session : Session :=
      { token := m.token, userId, createdAt := m.now, expiresAt := expiry m.now a.lifetime, address }
    (.ok m.token, { a with sessions := a.sessions ++ [session] })

/-- The live session with that token. -/
def validate (a : Accounts) (m : Moment) (token : Text) : Option Session :=
  a.sessions.find? fun s => s.token == token && s.isLive m.now

/-- Closes the sessions with that token; the answer says whether there was one. -/
def closeSession (a : Accounts) (token : Text) : Bool × Accounts :=
  let kept := a.sessions.filter fun s => s.token != token
  (kept.length < a.sessions.length, { a with sessions := kept })

end Accounts
end WebHost
