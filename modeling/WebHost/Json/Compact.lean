import WebHost.Text.Decimal

/-! Flat JSON objects without spaces, as the site answers them. In texts the quotes, the backslashes
and the control characters are escaped, and nothing else. -/
namespace WebHost.Json

/-- The short escapes, by character. -/
def shortEscape? (c : Char) : Option Char :=
  if c = '\x22' then some '\x22'
  else if c = '\\' then some '\\'
  else if c = '\x08' then some 'b'
  else if c = '\x0c' then some 'f'
  else if c = '\n' then some 'n'
  else if c = '\r' then some 'r'
  else if c = '\t' then some 't'
  else none

def escape (c : Char) : Text :=
  match shortEscape? c with
  | some e => ['\\', e]
  | none => if c.toNat < 0x20 then "\\u00".toList ++ Text.hexByte (UInt8.ofNat c.toNat) else [c]

def quote (t : Text) : Text := '\x22' :: t.flatMap escape ++ ['\x22']

inductive Scalar
  | number (n : Nat)
  | text (t : Text)
  deriving DecidableEq, Repr

def Scalar.print : Scalar → Text
  | .number n => Text.decimal n
  | .text t => quote t

def printMember (m : Text × Scalar) : Text := quote m.1 ++ ':' :: m.2.print

/-- An object with its members in the given order. -/
def printObject (members : List (Text × Scalar)) : Text :=
  '\x7b' :: [','].intercalate (members.map printMember) ++ ['\x7d']

end WebHost.Json
