import WebHost.Json.Token

/-! JSON values as read. A document is read with an explicit stack, so that nesting is not limited. -/
namespace WebHost.Json

inductive Value
  | null
  | bool (b : Bool)
  | number (value : Option Nat)
  | string (text : Option Text)
  | array (items : List Value)
  /-- Members in the order of the document, with repeated keys. -/
  | object (members : List (Option Text × Value))

/-- An array or object that is still open, latest part first. -/
inductive Frame
  | items (done : List Value)
  | members (done : List (Option Text × Value))
  | member (done : List (Option Text × Value)) (key : Option Text)

/-- What may come next. -/
inductive Phase
  | value
  /-- A first item or the end of the array. -/
  | item
  /-- A first key or the end of the object. -/
  | member
  | key
  | colon
  /-- A comma or the end of the innermost array or object. -/
  | afterValue
  | done (v : Value)
  | failed

structure Builder where
  stack : List Frame := []
  phase : Phase := .value

namespace Builder

/-- A complete value goes into the innermost open array or object. -/
def accept (stack : List Frame) (v : Value) : Builder :=
  match stack with
  | [] => ⟨[], .done v⟩
  | .items done :: st => ⟨.items (v :: done) :: st, .afterValue⟩
  | .member done key :: st => ⟨.members ((key, v) :: done) :: st, .afterValue⟩
  | .members _ :: _ => ⟨stack, .failed⟩

def begin (stack : List Frame) : Token → Builder
  | .openBracket => ⟨.items [] :: stack, .item⟩
  | .openBrace => ⟨.members [] :: stack, .member⟩
  | .null => accept stack .null
  | .bool b => accept stack (.bool b)
  | .number value => accept stack (.number value)
  | .string text => accept stack (.string text)
  | _ => ⟨stack, .failed⟩

def close (stack : List Frame) (t : Token) : Builder :=
  match t, stack with
  | .closeBracket, .items done :: st => accept st (.array done.reverse)
  | .closeBrace, .members done :: st => accept st (.object done.reverse)
  | _, _ => ⟨stack, .failed⟩

def takeKey (stack : List Frame) (t : Token) : Builder :=
  match t, stack with
  | .string key, .members done :: st => ⟨.member done key :: st, .colon⟩
  | _, _ => ⟨stack, .failed⟩

def step (b : Builder) (t : Token) : Builder :=
  match b.phase with
  | .value => begin b.stack t
  | .item => if t = .closeBracket then close b.stack t else begin b.stack t
  | .member => if t = .closeBrace then close b.stack t else takeKey b.stack t
  | .key => takeKey b.stack t
  | .colon => ⟨b.stack, if t = .colon then .value else .failed⟩
  | .afterValue =>
    if t = .comma then
      match b.stack with
      | .items _ :: _ => ⟨b.stack, .value⟩
      | _ => ⟨b.stack, .key⟩
    else close b.stack t
  | .done _ | .failed => ⟨b.stack, .failed⟩

def finish (b : Builder) : Option Value :=
  match b.phase with
  | .done v => some v
  | _ => none

end Builder

/-- The value that a whole document is. -/
def Value.parse (bs : Bytes) : Option Value :=
  (tokens? bs).bind fun ts => (ts.foldl Builder.step {}).finish

end WebHost.Json
