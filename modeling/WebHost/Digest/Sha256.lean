import WebHost.Text.Decimal

/-! The SHA-256 digest of a byte string: padding to blocks of 64 bytes, and 64 rounds a block. -/
namespace WebHost.Sha256

/-- The eight chaining words. -/
structure Words where
  (a b c d e f g h : UInt32)
  deriving DecidableEq, Repr

def initial : Words :=
  ⟨0x6a09e667, 0xbb67ae85, 0x3c6ef372, 0xa54ff53a, 0x510e527f, 0x9b05688c, 0x1f83d9ab, 0x5be0cd19⟩

/-- The round constants, in the order of the rounds. -/
def constants : List UInt32 :=
  [0x428a2f98, 0x71374491, 0xb5c0fbcf, 0xe9b5dba5, 0x3956c25b, 0x59f111f1, 0x923f82a4, 0xab1c5ed5,
   0xd807aa98, 0x12835b01, 0x243185be, 0x550c7dc3, 0x72be5d74, 0x80deb1fe, 0x9bdc06a7, 0xc19bf174,
   0xe49b69c1, 0xefbe4786, 0x0fc19dc6, 0x240ca1cc, 0x2de92c6f, 0x4a7484aa, 0x5cb0a9dc, 0x76f988da,
   0x983e5152, 0xa831c66d, 0xb00327c8, 0xbf597fc7, 0xc6e00bf3, 0xd5a79147, 0x06ca6351, 0x14292967,
   0x27b70a85, 0x2e1b2138, 0x4d2c6dfc, 0x53380d13, 0x650a7354, 0x766a0abb, 0x81c2c92e, 0x92722c85,
   0xa2bfe8a1, 0xa81a664b, 0xc24b8b70, 0xc76c51a3, 0xd192e819, 0xd6990624, 0xf40e3585, 0x106aa070,
   0x19a4c116, 0x1e376c08, 0x2748774c, 0x34b0bcb5, 0x391c0cb3, 0x4ed8aa4a, 0x5b9cca4f, 0x682e6ff3,
   0x748f82ee, 0x78a5636f, 0x84c87814, 0x8cc70208, 0x90befffa, 0xa4506ceb, 0xbef9a3f7, 0xc67178f2]

def rotateRight (x : UInt32) (n : UInt32) : UInt32 := (x >>> n) ||| (x <<< (32 - n))

def bigSigma0 (x : UInt32) : UInt32 := rotateRight x 2 ^^^ rotateRight x 13 ^^^ rotateRight x 22
def bigSigma1 (x : UInt32) : UInt32 := rotateRight x 6 ^^^ rotateRight x 11 ^^^ rotateRight x 25
def smallSigma0 (x : UInt32) : UInt32 := rotateRight x 7 ^^^ rotateRight x 18 ^^^ (x >>> 3)
def smallSigma1 (x : UInt32) : UInt32 := rotateRight x 17 ^^^ rotateRight x 19 ^^^ (x >>> 10)

/-- One round with its constant `k` and its schedule word `w`. -/
def round (s : Words) (k w : UInt32) : Words :=
  let choice := (s.e &&& s.f) ^^^ ((~~~ s.e) &&& s.g)
  let majority := (s.a &&& s.b) ^^^ (s.a &&& s.c) ^^^ (s.b &&& s.c)
  let t := s.h + bigSigma1 s.e + choice + k + w
  ⟨t + bigSigma0 s.a + majority, s.a, s.b, s.c, s.d + t, s.e, s.f, s.g⟩

def wordAt (window : List UInt32) (i : Nat) : UInt32 := window[i]?.getD 0

/-- The next sixteen schedule words: the first is spent and one is put at the end. -/
def advance (window : List UInt32) : List UInt32 :=
  window.drop 1 ++
    [smallSigma1 (wordAt window 14) + wordAt window 9 + smallSigma0 (wordAt window 1) + wordAt window 0]

def rounds (window : List UInt32) (s : Words) : Words :=
  (constants.foldl (fun (p : List UInt32 × Words) k => (advance p.1, round p.2 k (wordAt p.1 0)))
    (window, s)).2

def Words.add (s t : Words) : Words :=
  ⟨s.a + t.a, s.b + t.b, s.c + t.c, s.d + t.d, s.e + t.e, s.f + t.f, s.g + t.g, s.h + t.h⟩

/-- Big-endian words of four bytes; fewer than four bytes at the end are dropped. -/
def toWords : Bytes → List UInt32
  | a :: b :: c :: d :: r =>
    ((a.toUInt32 <<< 24) ||| (b.toUInt32 <<< 16) ||| (c.toUInt32 <<< 8) ||| d.toUInt32) :: toWords r
  | _ => []

def wordBytes (w : UInt32) : Bytes :=
  [(w >>> 24).toUInt8, (w >>> 16).toUInt8, (w >>> 8).toUInt8, w.toUInt8]

def compress (s : Words) (block : Bytes) : Words := s.add (rounds (toWords block) s)

/-- The length of the message in bits, in eight bytes. -/
def lengthBytes (bits : Nat) : Bytes :=
  [56, 48, 40, 32, 24, 16, 8, 0].map fun i => UInt8.ofNat (bits >>> i)

/-- A one bit, zeros up to eight bytes short of a block's end, and the length. -/
def pad (m : Bytes) : Bytes :=
  m ++ (0x80 :: List.replicate ((119 - m.length % 64) % 64) 0) ++ lengthBytes (8 * m.length)

def compressAll : Nat → Bytes → Words → Words
  | 0, _, s => s
  | n + 1, bs, s => compressAll n (bs.drop 64) (compress s (bs.take 64))

def Words.bytes (s : Words) : Bytes := [s.a, s.b, s.c, s.d, s.e, s.f, s.g, s.h].flatMap wordBytes

def digest (m : Bytes) : Bytes :=
  let padded := pad m
  (compressAll (padded.length / 64) padded initial).bytes

@[simp] theorem length_digest (m : Bytes) : (digest m).length = 32 := rfl

/-- The padded message consists of whole blocks. -/
theorem length_pad_mod (m : Bytes) : (pad m).length % 64 = 0 := by
  simp only [pad, lengthBytes, List.length_append, List.length_cons, List.length_replicate,
    List.length_map, List.length_nil]
  omega

end WebHost.Sha256
