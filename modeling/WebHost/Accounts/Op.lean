import WebHost.Accounts.Basic
import WebHost.Action

/-! The operations on the accounts. Each holds the book alone while it runs. -/
namespace WebHost.Accounts

/-- Operations by the type of their answers. -/
inductive Op : Type → Type
  | register (username email password : Text) : Op (Except AccountError Nat)
  | authenticate (username password : Text) : Op (Except AccountError Nat)
  | userById (id : Nat) : Op (Option Account)
  | userByName (name : Text) : Op (Option Account)
  | setRole (id : Nat) (role : Role) : Op Bool
  | setActive (id : Nat) (active : Bool) : Op Bool
  | userCount : Op Nat
  | openSession (userId : Nat) (address : Option Text) : Op (Except AccountError Text)
  | validate (token : Text) : Op (Option Session)
  | closeSession (token : Text) : Op Bool
  | cleanup : Op Nat
  | sessionCount : Op Nat

namespace Op

/-- The answer of an operation and the book after it. -/
def apply {β : Type} (m : Moment) (a : Accounts) : Op β → β × Accounts
  | .register username email password => a.register m username email password
  | .authenticate username password => a.authenticate m username password
  | .userById id => (a.userById? id, a)
  | .userByName name => (a.userByName? name, a)
  | .setRole id role => a.setRole id role
  | .setActive id active => a.setActive id active
  | .userCount => (a.users.length, a)
  | .openSession userId address => a.openSession m userId address
  | .validate token => (a.validate m token, a)
  | .closeSession token => a.closeSession token
  | .cleanup => a.cleanup m
  | .sessionCount => (a.sessions.length, a)

end Op
end WebHost.Accounts
