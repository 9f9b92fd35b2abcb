import WebHost.Text.Basic

/-! Numerals. Natural numbers in decimal are written without leading zeros and read with any number
of them. Bytes in hexadecimal are written with small letters and read with letters of either case. -/
namespace WebHost.Text

def decimal (n : Nat) : Text := Nat.toDigits 10 n

/-- The value of a non-empty text of ASCII digits. -/
def decimalValue? (t : Text) : Option Nat :=
  if !t.isEmpty && t.all Char.isDigit then some (Nat.ofDigitChars 10 t 0) else none

/-- A number below `bound`, with an optional plus sign in front. -/
def boundedValue? (bound : Nat) (t : Text) : Option Nat :=
  let digits := match t with
    | '+' :: r => r
    | r => r
  (decimalValue? digits).filter (· < bound)

/-- Numbers of 64 bits, the range of every size and length. -/
def sizeBound : Nat := 18446744073709551616

def size? (t : Text) : Option Nat := boundedValue? sizeBound t

/-- A port: a number of 16 bits. Either sign may stand in front, so that `-0` is zero. -/
def port? (t : Text) : Option UInt16 :=
  match t with
  | '-' :: r => (decimalValue? r).bind fun n => if n = 0 then some 0 else none
  | r => (boundedValue? UInt16.size r).map UInt16.ofNat

@[simp] theorem decimalValue?_decimal (n : Nat) : decimalValue? (decimal n) = some n := by
  have hd : (decimal n).all Char.isDigit :=
    List.all_eq_true.mpr fun c hc => Nat.isDigit_of_mem_toDigits (by omega) (by omega) hc
  have hn : (decimal n).isEmpty = false := by
    simp [decimal, Nat.toDigits_ne_nil]
  rw [decimalValue?, hd, hn]
  simp [decimal, Nat.ofDigitChars_toDigits]

/-- The value of a byte that is a hexadecimal digit in ASCII. -/
def hexValue? (b : UInt8) : Option UInt8 :=
  if 0x30 ≤ b && b ≤ 0x39 then some (b - 0x30)
  else if 0x61 ≤ b && b ≤ 0x66 then some (b - 0x61 + 10)
  else if 0x41 ≤ b && b ≤ 0x46 then some (b - 0x41 + 10)
  else none

/-- The two digits of a byte. -/
def hexByte (b : UInt8) : Text := [Nat.digitChar (b.toNat / 16), Nat.digitChar (b.toNat % 16)]

def hex (bs : Bytes) : Text := bs.flatMap hexByte

@[simp] theorem length_hex (bs : Bytes) : (hex bs).length = 2 * bs.length := by
  induction bs with
  | nil => rfl
  | cons b bs ih => simp only [hex, List.flatMap_cons, List.length_append] at *; simp [hexByte, ih]; omega

end WebHost.Text
