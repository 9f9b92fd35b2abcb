import WebHost.Text.Cut
import WebHost.Text.Decimal
import WebHost.Text.Utf8

/-! Urlencoded forms: pairs joined by `&`, a key and a value joined by `=`, and bytes written as
`%` with two hexadecimal digits. -/
namespace WebHost.Http.Form

/-- The byte that two hexadecimal digits stand for. -/
def escaped? (high low : UInt8) : Option UInt8 := do
  return (← Text.hexValue? high) * 16 + (← Text.hexValue? low)

/-- Decoding with the bytes already decoded in `out`, latest first. A percent sign that no two
digits follow stands for itself. -/
def decodeFrom (out : Bytes) : Bytes → Bytes
  | [] => out.reverse
  | b :: r =>
    if b = 0x25 then
      match r with
      | h :: l :: r' =>
        match escaped? h l with
        | some v => decodeFrom (v :: out) r'
        | none => decodeFrom (b :: out) (h :: l :: r')
      | r => decodeFrom (b :: out) r
    else decodeFrom ((if b = 0x2B then 0x20 else b) :: out) r

def decodeBytes (bs : Bytes) : Bytes := decodeFrom [] bs

/-- The text an urlencoded text stands for; `+` is a space. -/
def decode (t : Text) : Text := Utf8.decodeLossy (decodeBytes (Utf8.encode t))

/-- A pair without `=` has an empty value. -/
def pair (t : Text) : Text × Text :=
  match Text.cut? ['='] t with
  | some (key, value) => (decode key, decode value)
  | none => (decode t, [])

def parse (t : Text) : List (Text × Text) :=
  ((t.splitOn '&').filter fun p => ! p.isEmpty).map pair

/-- The value of the first pair with that key. -/
def get? (form : List (Text × Text)) (key : Text) : Option Text :=
  (form.find? fun p => p.1 == key).map Prod.snd

end WebHost.Http.Form
