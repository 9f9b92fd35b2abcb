import WebHost.Text.Basic

/-! UTF-8. One scanner reads any bytes as characters and faults; strict reading refuses a fault and
lossy reading puts the replacement character for it. A fault is the longest run of bytes that
begins a well-formed character and cannot go on. -/
namespace WebHost.Utf8

def encode (t : Text) : Bytes := t.flatMap String.utf8EncodeChar

/-- A character whose first bytes have been read. -/
structure Partial where
  /-- The bits read so far. -/
  bits : Nat
  /-- How many bytes are still owed. -/
  owed : Nat
  /-- The least and the greatest byte that may come next. -/
  least : UInt8 := 0x80
  most : UInt8 := 0xBF
  deriving DecidableEq, Repr

inductive Lead
  | whole (c : Char)
  | opens (p : Partial)
  | fault

/-- What a byte between characters stands for. The bounds on the second byte leave out overlong
forms, surrogates and numbers above the last character. -/
def lead (b : UInt8) : Lead :=
  let n := b.toNat
  if n < 0x80 then .whole (Char.ofNat n)
  else if n < 0xC2 then .fault
  else if n < 0xE0 then .opens { bits := n - 0xC0, owed := 1 }
  else if n = 0xE0 then .opens { bits := 0, owed := 2, least := 0xA0 }
  else if n = 0xED then .opens { bits := 13, owed := 2, most := 0x9F }
  else if n < 0xF0 then .opens { bits := n - 0xE0, owed := 2 }
  else if n = 0xF0 then .opens { bits := 0, owed := 3, least := 0x90 }
  else if n < 0xF4 then .opens { bits := n - 0xF0, owed := 3 }
  else if n = 0xF4 then .opens { bits := 4, owed := 3, most := 0x8F }
  else .fault

/-- Characters and faults (`none`) read so far, latest first, and an unfinished character. -/
structure Scanner where
  units : List (Option Char) := []
  unfinished : Option Partial := none

namespace Scanner

def start (s : Scanner) (b : UInt8) : Scanner :=
  match lead b with
  | .whole c => ⟨some c :: s.units, none⟩
  | .opens p => ⟨s.units, some p⟩
  | .fault => ⟨none :: s.units, none⟩

def step (s : Scanner) (b : UInt8) : Scanner :=
  match s.unfinished with
  | none => s.start b
  | some p =>
    if p.least ≤ b && b ≤ p.most then
      let bits := p.bits * 64 + (b.toNat - 0x80)
      if p.owed ≤ 1 then ⟨some (Char.ofNat bits) :: s.units, none⟩
      else ⟨s.units, some { bits, owed := p.owed - 1 }⟩
    else start ⟨none :: s.units, none⟩ b

def finish (s : Scanner) : List (Option Char) :=
  match s.unfinished with
  | none => s.units.reverse
  | some _ => (none :: s.units).reverse

end Scanner

def scan (bs : Bytes) : List (Option Char) := (bs.foldl Scanner.step {}).finish

/-- The text that the bytes spell, if they are well-formed. -/
def decode? (bs : Bytes) : Option Text :=
  let units := scan bs
  if units.all Option.isSome then some (units.filterMap id) else none

def replacement : Char := '\uFFFD'

def decodeLossy (bs : Bytes) : Text := (scan bs).map fun u => u.getD replacement

@[simp] theorem encode_nil : encode [] = [] := rfl

@[simp] theorem encode_append (s t : Text) : encode (s ++ t) = encode s ++ encode t :=
  List.flatMap_append

theorem decodeLossy_of_decode? {bs : Bytes} {t : Text} (h : decode? bs = some t) :
    decodeLossy bs = t := by
  simp only [decode?] at h
  split at h
  · next hs =>
    simp only [Option.some.injEq] at h
    subst h
    rw [decodeLossy]
    generalize scan bs = units at hs
    induction units with
    | nil => rfl
    | cons u us ih =>
      simp only [List.all_cons, Bool.and_eq_true] at hs
      obtain ⟨c, rfl⟩ := Option.isSome_iff_exists.mp hs.1
      simpa using ih hs.2
  · simp at h

end WebHost.Utf8
