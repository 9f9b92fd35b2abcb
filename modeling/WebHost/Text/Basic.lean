/-! Text and bytes as lists, so that every reader and writer is a function on lists. Texts are
compared as they are, or without regard to the case of the ASCII letters. -/
namespace WebHost

/-- A text is the list of its characters. -/
abbrev Text := List Char

abbrev Bytes := List UInt8

namespace Text

/-- The length of the UTF-8 form. All length limits on text count bytes. -/
def byteLength (t : Text) : Nat := t.foldl (fun n c => n + c.utf8Size) 0

theorem foldl_utf8Size (n : Nat) (t : Text) :
    t.foldl (fun n c => n + c.utf8Size) n = n + byteLength t := by
  induction t generalizing n with
  | nil => rfl
  | cons c r ih =>
    have h : byteLength (c :: r) = 0 + c.utf8Size + byteLength r := ih (0 + c.utf8Size)
    rw [List.foldl_cons, ih, h]
    omega

@[simp] theorem byteLength_nil : byteLength [] = 0 := rfl

@[simp] theorem byteLength_cons (c : Char) (t : Text) :
    byteLength (c :: t) = c.utf8Size + byteLength t := by
  rw [byteLength, List.foldl_cons, foldl_utf8Size, Nat.zero_add]

theorem byteLength_le (t : Text) : byteLength t ≤ 4 * t.length := by
  induction t with
  | nil => simp
  | cons c r ih =>
    have hc := c.utf8Size_le_four
    rw [byteLength_cons, List.length_cons]
    omega

/-- `t` without `p` in front, or nothing if it does not start with `p`. -/
def after? (p t : Text) : Option Text :=
  if p.isPrefixOf t then some (t.drop p.length) else none

theorem after?_append (p t : Text) : after? p (p ++ t) = some t := by
  simp [after?]

theorem after?_eq_some_iff {p t r : Text} : after? p t = some r ↔ t = p ++ r := by
  constructor
  · intro h
    unfold after? at h
    split at h
    · next hp =>
      obtain ⟨s, rfl⟩ := List.isPrefixOf_iff_prefix.mp hp
      simp_all
    · simp at h
  · rintro rfl
    exact after?_append p r

/-- ASCII capitals become small letters; all other characters stay. -/
def folded (t : Text) : Text := t.map Char.toLower

def sameFolded (a b : Text) : Bool := folded a == folded b

theorem sameFolded_iff {a b : Text} : sameFolded a b ↔ folded a = folded b := by
  simp [sameFolded]

@[simp] theorem sameFolded_self (a : Text) : sameFolded a a := by simp [sameFolded]

end Text
end WebHost
