import WebHost.Text.Utf8

/-! JSON tokens. Whether a string spells a text and whether a number is a plain natural is settled
here; a reader that passes a value over asks for neither. -/
namespace WebHost.Json

inductive Token
  | openBracket | closeBracket | openBrace | closeBrace | comma | colon
  | null
  | bool (b : Bool)
  /-- A number, with its value if it is written in digits alone. -/
  | number (value : Option Nat)
  /-- A string, with its text unless it holds bytes or escapes that spell none. -/
  | string (text : Option Text)
  deriving DecidableEq, Repr

/-- What stands between the quotes of a string: bytes, also those that short escapes stand for,
and escaped 16-bit units. -/
inductive Piece
  | byte (b : UInt8)
  | unit (n : Nat)
  deriving DecidableEq, Repr

namespace Piece

def isHigh (n : Nat) : Bool := 0xD800 ≤ n && n < 0xDC00
def isLow (n : Nat) : Bool := 0xDC00 ≤ n && n < 0xE000

/-- The bytes that pieces spell, latest piece first, in front of `out`. Units of a surrogate pair
spell one character together and nothing alone. -/
def spellBefore (out : Bytes) : List Piece → Option Bytes
  | [] => some out
  | .byte b :: ps => spellBefore (b :: out) ps
  | .unit n :: ps =>
    if isLow n then
      match ps with
      | .unit h :: ps' =>
        if isHigh h then
          spellBefore (String.utf8EncodeChar (Char.ofNat (0x10000 + (h - 0xD800) * 0x400 + (n - 0xDC00))) ++ out) ps'
        else none
      | _ => none
    else if isHigh n then none
    else spellBefore (String.utf8EncodeChar (Char.ofNat n) ++ out) ps

/-- The text of pieces, latest first. -/
def text? (ps : List Piece) : Option Text := (spellBefore [] ps).bind Utf8.decode?

end Piece

/-- Where a number can stand while it is read. -/
inductive NumberPart
  | minus | zero | digits | point | fraction | exponentMark | exponentSign | exponent
  deriving DecidableEq, Repr

namespace NumberPart

/-- A number may end here. -/
def isComplete : NumberPart → Bool
  | .zero | .digits | .fraction | .exponent => true
  | _ => false

def isDigit (b : UInt8) : Bool := 0x30 ≤ b && b ≤ 0x39

/-- The part that a further byte leads to, if it belongs to the number. -/
def next? (p : NumberPart) (b : UInt8) : Option NumberPart :=
  let digit := isDigit b
  let mark := b == 0x65 || b == 0x45
  match p with
  | .minus => if b == 0x30 then some .zero else if digit then some .digits else none
  | .zero => if b == 0x2E then some .point else if mark then some .exponentMark else none
  | .digits =>
    if digit then some .digits
    else if b == 0x2E then some .point
    else if mark then some .exponentMark
    else none
  | .point => if digit then some .fraction else none
  | .fraction => if digit then some .fraction else if mark then some .exponentMark else none
  | .exponentMark =>
    if b == 0x2B || b == 0x2D then some .exponentSign else if digit then some .exponent else none
  | .exponentSign | .exponent => if digit then some .exponent else none

end NumberPart

/-- What the lexer is in the middle of. -/
inductive Mode
  | between
  /-- The rest of a literal name. -/
  | word (left : Bytes) (token : Token)
  | number (part : NumberPart) (value : Option Nat)
  | string (pieces : List Piece)
  | escape (pieces : List Piece)
  /-- Hexadecimal digits of a unit still owed, and the value of those read. -/
  | unit (pieces : List Piece) (owed value : Nat)
  | failed
  deriving DecidableEq, Repr

/-- Tokens read so far, latest first. -/
structure Lexer where
  tokens : List Token := []
  mode : Mode := .between

namespace Lexer

def isSpace (b : UInt8) : Bool := b == 0x20 || b == 0x0A || b == 0x09 || b == 0x0D

def emit (tokens : List Token) (t : Token) : Lexer := ⟨t :: tokens, .between⟩

/-- A byte between tokens. -/
def start (tokens : List Token) (b : UInt8) : Lexer :=
  if isSpace b then ⟨tokens, .between⟩
  else if b == 0x5B then emit tokens .openBracket
  else if b == 0x5D then emit tokens .closeBracket
  else if b == 0x7B then emit tokens .openBrace
  else if b == 0x7D then emit tokens .closeBrace
  else if b == 0x2C then emit tokens .comma
  else if b == 0x3A then emit tokens .colon
  else if b == 0x22 then ⟨tokens, .string []⟩
  else if b == 0x2D then ⟨tokens, .number .minus none⟩
  else if b == 0x30 then ⟨tokens, .number .zero (some 0)⟩
  else if NumberPart.isDigit b then ⟨tokens, .number .digits (some (b.toNat - 0x30))⟩
  else if b == 0x6E then ⟨tokens, .word [0x75, 0x6C, 0x6C] .null⟩
  else if b == 0x74 then ⟨tokens, .word [0x72, 0x75, 0x65] (.bool true)⟩
  else if b == 0x66 then ⟨tokens, .word [0x61, 0x6C, 0x73, 0x65] (.bool false)⟩
  else ⟨tokens, .failed⟩

/-- The byte that a short escape stands for. -/
def escaped? (b : UInt8) : Option UInt8 :=
  if b == 0x22 || b == 0x5C || b == 0x2F then some b
  else if b == 0x62 then some 0x08
  else if b == 0x66 then some 0x0C
  else if b == 0x6E then some 0x0A
  else if b == 0x72 then some 0x0D
  else if b == 0x74 then some 0x09
  else none

def hexDigit? (b : UInt8) : Option Nat :=
  if NumberPart.isDigit b then some (b.toNat - 0x30)
  else if 0x61 ≤ b && b ≤ 0x66 then some (b.toNat - 0x61 + 10)
  else if 0x41 ≤ b && b ≤ 0x46 then some (b.toNat - 0x41 + 10)
  else none

def step (l : Lexer) (b : UInt8) : Lexer :=
  match l.mode with
  | .failed => l
  | .between => start l.tokens b
  | .word [] t => start (t :: l.tokens) b
  | .word (c :: cs) t =>
    if b == c then (if cs.isEmpty then emit l.tokens t else ⟨l.tokens, .word cs t⟩)
    else ⟨l.tokens, .failed⟩
  | .number part value =>
    match part.next? b with
    | some .digits => ⟨l.tokens, .number .digits (value.map fun n => 10 * n + (b.toNat - 0x30))⟩
    | some p => ⟨l.tokens, .number p none⟩
    | none =>
      if part.isComplete then start (.number value :: l.tokens) b else ⟨l.tokens, .failed⟩
  | .string ps =>
    if b == 0x22 then emit l.tokens (.string (Piece.text? ps))
    else if b == 0x5C then ⟨l.tokens, .escape ps⟩
    else if b < 0x20 then ⟨l.tokens, .failed⟩
    else ⟨l.tokens, .string (.byte b :: ps)⟩
  | .escape ps =>
    if b == 0x75 then ⟨l.tokens, .unit ps 4 0⟩
    else
      match escaped? b with
      | some c => ⟨l.tokens, .string (.byte c :: ps)⟩
      | none => ⟨l.tokens, .failed⟩
  | .unit ps owed value =>
    match hexDigit? b with
    | none => ⟨l.tokens, .failed⟩
    | some d =>
      if owed ≤ 1 then ⟨l.tokens, .string (.unit (16 * value + d) :: ps)⟩
      else ⟨l.tokens, .unit ps (owed - 1) (16 * value + d)⟩

def finish (l : Lexer) : Option (List Token) :=
  match l.mode with
  | .between => some l.tokens.reverse
  | .number part value => if part.isComplete then some (.number value :: l.tokens).reverse else none
  | _ => none

end Lexer

/-- The tokens of a document, if every byte belongs to one or is space between them. -/
def tokens? (bs : Bytes) : Option (List Token) := (bs.foldl Lexer.step {}).finish

end WebHost.Json
