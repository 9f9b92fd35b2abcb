import WebHost.Digest.Sha256
import WebHost.Text.Cut
import WebHost.Text.Utf8

/-! What a name, a mail address and a password must look like, and how a password is kept. -/
namespace WebHost.Credentials

def saltLength : Nat := 32
def tokenLength : Nat := 63

def isBetween (least most : Nat) (t : Text) : Bool :=
  least ≤ Text.byteLength t && Text.byteLength t ≤ most

/-- 3 to 63 ASCII letters, digits and underscores. -/
def isUsername (t : Text) : Bool := isBetween 3 63 t && t.all fun c => c.isAlphanum || c == '_'

/-- Something before the first at sign; after it something before the next dot, and after that dot
more, all on one line. -/
def hasMailShape (t : Text) : Bool :=
  match Text.cut? ['@'] t with
  | none => false
  | some (mailbox, domain) =>
    match Text.cut? ['.'] domain with
    | none => false
    | some (host, rest) =>
      ! mailbox.isEmpty && ! host.isEmpty && ! rest.isEmpty && ! rest.contains '\n'

def isEmail (t : Text) : Bool := isBetween 5 127 t && hasMailShape t

/-- The kinds of character that a strong password mixes. -/
def characterKinds : List (Char → Bool) :=
  [Char.isUpper, Char.isLower, Char.isDigit, fun c => ! c.isAlphanum]

/-- 8 to 255 bytes with characters of at least three kinds. -/
def isStrongPassword (t : Text) : Bool :=
  isBetween 8 255 t && 3 ≤ characterKinds.countP t.any

/-- The digest of the password followed by the salt, in hexadecimal. -/
def hash (password salt : Text) : Text :=
  Text.hex (Sha256.digest (Utf8.encode password ++ Utf8.encode salt))

def verify (password salt stored : Text) : Bool := hash password salt == stored

@[simp] theorem length_hash (password salt : Text) : (hash password salt).length = 64 := by
  simp [hash]

end WebHost.Credentials
